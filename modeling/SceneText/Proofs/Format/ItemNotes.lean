import SceneText.Proofs.Format.Items

/-!
# Proofs/Format/ItemNotes — where an item fails

An item that matches leaves notes in front of what opens it only (`opens_of_mem_notes_item`).  One
that fails may leave notes in two more places (`mem_notes_item_cases`): where a transform wants a
further number, and on the two lines of a shape behind its keyword.
-/

namespace SceneText

variable {s t u : List Char} {f g : Forest} {n : Note} {r : Rule} {is : Char → Bool} {k : Nat}

open Pattern

/-- A failure is noted before anything but spacing has been taken. -/
def Note.Opens (n : Note) (s : List Char) : Prop := ∃ w, s = w ++ n.rest ∧ ∀ c ∈ w, isSpacing c

theorem Note.opens_self (r : Rule) (s : List Char) : Note.Opens ⟨r, s⟩ s := ⟨[], rfl, by simp⟩

theorem Note.Opens.append {w : List Char} (h : n.Opens s) (hw : ∀ c ∈ w, isSpacing c) :
    n.Opens (w ++ s) := by
  obtain ⟨v, rfl, hv⟩ := h
  exact ⟨w ++ v, by simp, List.forall_mem_append.2 ⟨hw, hv⟩⟩

/-- Such a failure lies at what opens the text, or before it. -/
theorem Note.Opens.length_le (h : n.Opens s) :
    (s.dropWhile isSpacing).length ≤ n.rest.length := by
  obtain ⟨w, hs, hw⟩ := h
  rw [hs, List.dropWhile_append_of_pos hw]
  exact (List.dropWhile_suffix _).length_le

theorem Note.opens_dropWhile_isLineBreak (r : Rule) (s : List Char) :
    Note.Opens ⟨r, s.dropWhile isLineBreak⟩ s :=
  ⟨s.takeWhile isLineBreak, List.takeWhile_append_dropWhile.symm, fun c hc => by
    simp [isSpacing, of_mem_takeWhile hc]⟩

theorem Note.Opens.of_dropWhile_isLineBreak (h : n.Opens (s.dropWhile isLineBreak)) :
    n.Opens s := by
  rw [← List.takeWhile_append_dropWhile (p := isLineBreak) (l := s)]
  exact h.append fun c hc => by simp [isSpacing, of_mem_takeWhile hc]

theorem Note.Opens.of_dropLineEnd? (hdrop : dropLineEnd? s = some t) (h : n.Opens t) :
    n.Opens s := by
  obtain ⟨brk, rfl, hbrk⟩ := dropLineEnd?_eq_some_iff.1 hdrop
  refine h.append fun c hc => ?_
  rcases hbrk with rfl | rfl | ⟨rfl, -⟩ <;> simp at hc <;> rcases hc with rfl | rfl <;> rfl

namespace Pattern

/-! ## Tokens -/

theorem notes_token_of_stops (hs : Stops is s) : (token r is).notes s = [⟨r, s⟩] := by
  have hnone : (oneOrMore (char is)).parse s = none :=
    parse_append_of_none (parse_char_eq_none_iff.2 hs)
  exact notes_rule_eq_singleton hnone (notes_eq_nil rfl s)

theorem silent_token (r : Rule) (is : Char → Bool) : (token r is).Silent :=
  (silent_of_rules rfl).rule

theorem parse_token_eq_none_iff : (token r is).parse s = none ↔ Stops is s := by
  constructor
  · intro h
    by_contra hs
    rw [parse_token_iff.2 ⟨_, List.takeWhile_append_dropWhile.symm, isRun_takeWhile hs,
      stops_dropWhile is s, rfl⟩] at h
    cases h
  · intro hs
    refine Option.eq_none_iff_forall_ne_some.2 fun ⟨f, rest⟩ h => ?_
    obtain ⟨w, rfl, hw, -⟩ := parse_token_iff.1 h
    exact hw.not_stops rest hs

theorem mem_notes_token_iff : n ∈ (token r is).notes s ↔ Stops is s ∧ n = ⟨r, s⟩ := by
  by_cases hs : Stops is s
  · simp [notes_token_of_stops hs, hs]
  · have hsome : (token r is).parse s ≠ none := mt parse_token_eq_none_iff.1 hs
    obtain ⟨m, hm⟩ := Option.ne_none_iff_exists'.1 hsome
    simp [silent_token r is hm, hs]

theorem silent_lineEnd : lineEnd.Silent := (silent_of_rules rfl).rule

theorem mem_notes_lineEnd_iff :
    n ∈ lineEnd.notes s ↔ dropLineEnd? s = none ∧ n = ⟨.lineEnd, s⟩ := by
  by_cases hs : newline.parse s = none
  · have hnotes : lineEnd.notes s = [⟨.lineEnd, s⟩] :=
      notes_rule_eq_singleton hs (notes_eq_nil rfl s)
    simp [hnotes, parse_newline_eq_none_iff.1 hs]
  · obtain ⟨m, hm⟩ := Option.ne_none_iff_exists'.1 hs
    have hnotes : lineEnd.notes s = [] :=
      (notes_rule_of_some hm).trans (notes_eq_nil rfl s)
    simp [hnotes, mt parse_newline_eq_none_iff.2 hs]

/-- **Where line ends can be taken, the first text without one is noted.** -/
theorem mem_notes_lineEnds_iff :
    n ∈ (oneOrMore lineEnd).notes s ↔ n = ⟨.lineEnd, s.dropWhile isLineBreak⟩ := by
  cases hs : lineEnd.parse s with
  | none =>
    have hdrop := parse_newline_eq_none_iff.1 (parse_rule_eq_none_iff.1 hs)
    rw [oneOrMore, notes_append_of_none hs, mem_notes_lineEnd_iff,
      dropWhile_of_stops (dropLineEnd?_eq_none_iff.1 hdrop)]
    simp [hdrop]
  | some m =>
    obtain ⟨f, t⟩ := m
    obtain ⟨_, hdrop, -⟩ := parse_lineEnd_iff.1 hs
    obtain ⟨g, rest, hmany⟩ := exists_parse_many lineEnd t
    have hrest := rest_of_parse_lineEnds hmany
    rw [oneOrMore, notes_append_of_some hs, silent_lineEnd hs, List.nil_append,
      silent_lineEnd.notes_many rfl hmany, mem_notes_lineEnd_iff,
      dropWhile_of_dropLineEnd? (fun _ h => h) hdrop, hrest]
    simp [dropLineEnd?_eq_none_iff, stops_dropWhile]

/-- All blanks are taken. -/
theorem parse_blanks (s : List Char) :
    blanks.parse s = some (.run (s.takeWhile isBlank), s.dropWhile isBlank) :=
  parse_blanks_iff.2 ⟨_, List.takeWhile_append_dropWhile.symm, fun _ => of_mem_takeWhile,
    stops_dropWhile _ s, rfl⟩

/-- Blanks are taken before anything is noted. -/
theorem notes_blanks_append (p : Pattern) (s : List Char) :
    (blanks ++ p).notes s = p.notes (s.dropWhile isBlank) := by
  rw [notes_append_of_some (parse_blanks s), notes_eq_nil rfl, List.nil_append]

theorem parse_blanks_append_eq_none_iff {p : Pattern} :
    (blanks ++ p).parse s = none ↔ p.parse (s.dropWhile isBlank) = none := by
  rw [parse_append_eq_none_iff]
  simp [parse_blanks s]

/-! ## Transforms -/

/-- A form wants a number after some others, where none is. -/
def WantsNumber (form : TransformForm) (s u : List Char) : Prop :=
  ∃ ps b, s = form.tag.toList ++ (gapped ps ++ (b ++ u)) ∧ ps.length < form.arity ∧
    IsLayout isNumberChar ps ∧ IsRun isBlank b ∧ Stops isBlank u ∧ Stops isNumberChar u

theorem silent_withOperands {p : Pattern} (hp : p.Silent) (k : Nat) :
    (withOperands p k).Silent := by
  induction k with
  | zero => exact hp
  | succ k ih => exact (ih.append (silent_of_rules rfl)).append (silent_token _ _)

/-- A gap and a number leave at most one note: where the number is wanted and none is. -/
theorem notes_gap_number (s : List Char) : ((gap ++ number).notes s).length ≤ 1 ∧
    ∀ n, n ∈ (gap ++ number).notes s ↔ ∃ b u, s = b ++ u ∧ IsRun isBlank b ∧ Stops isBlank u ∧
      Stops isNumberChar u ∧ n = ⟨.number, u⟩ := by
  cases h : gap.parse s with
  | none =>
    rw [notes_append_of_none h, notes_eq_nil rfl]
    refine ⟨by simp, fun n => iff_of_false (by simp) ?_⟩
    rintro ⟨b, u, rfl, hb, hu, -⟩
    rw [parse_gap_iff.2 ⟨b, rfl, hb, hu, rfl⟩] at h
    cases h
  | some m =>
    obtain ⟨b, hs, hb, hu, -⟩ := parse_gap_iff.1 h
    rw [notes_append_of_some h, notes_eq_nil (p := gap) rfl, List.nil_append]
    have hunique {b' u' : List Char} (hs' : s = b' ++ u') (hb' : IsRun isBlank b')
        (hu' : Stops isBlank u') : u' = m.2 := by
      rw [parse_gap_iff.2 ⟨b', hs', hb', hu', rfl⟩] at h
      cases h
      rfl
    constructor
    · by_cases hstop : Stops isNumberChar m.2
      · exact (congrArg List.length (notes_token_of_stops hstop)).le
      · have hsome : number.parse m.2 ≠ none := mt parse_token_eq_none_iff.1 hstop
        obtain ⟨m', hm'⟩ := Option.ne_none_iff_exists'.1 hsome
        exact (congrArg List.length (silent_token .number isNumberChar hm')).le.trans zero_le_one
    · refine fun n => mem_notes_token_iff.trans ⟨?_, ?_⟩
      · rintro ⟨hstop, rfl⟩
        exact ⟨b, m.2, hs, hb, hu, hstop, rfl⟩
      · rintro ⟨b', u', hs', hb', hu', hstop, rfl⟩
        obtain rfl := hunique hs' hb' hu'
        exact ⟨hstop, rfl⟩

/-- Numbers behind gaps are taken in front of another gap. -/
theorem parse_withOperands_of_gap {p : Pattern} {f₀ : Forest} {ps : List (List Char × List Char)}
    {b u : List Char} {k : Nat} (hp : p.parse s = some (f₀, gapped ps ++ (b ++ u)))
    (hlen : ps.length = k) (hps : IsLayout isNumberChar ps) (hb : IsRun isBlank b) :
    (withOperands p k).parse s = some (f₀ ++ operandNodes ps, b ++ u) := by
  refine parse_withOperands_iff.2 ⟨f₀, ps, hp, hlen, hps, fun _ => hb.stops ?_ u, rfl⟩
  intro c hc
  by_contra h
  rw [(inWords_isNumberChar c (by simpa using h)).1] at hc
  cases hc

/-- Numbers behind gaps leave at most one note: where the next number is wanted and none is. -/
theorem notes_withOperands {p : Pattern} {f₀ : Forest} (hp : p.parse s = some (f₀, t))
    (hsilent : p.Silent) (k : Nat) :
    ((withOperands p k).notes s).length ≤ 1 ∧ ∀ n, n ∈ (withOperands p k).notes s ↔
      ∃ ps b u, t = gapped ps ++ (b ++ u) ∧ ps.length < k ∧ IsLayout isNumberChar ps ∧
        IsRun isBlank b ∧ Stops isBlank u ∧ Stops isNumberChar u ∧ n = ⟨.number, u⟩ := by
  induction k with
  | zero => simp [withOperands, hsilent hp]
  | succ k ih =>
    obtain ⟨hlength, hmem⟩ := ih
    rw [withOperands, notes_append_assoc]
    cases hk : (withOperands p k).parse s with
    | none =>
      rw [notes_append_of_none hk]
      refine ⟨hlength, fun n => (hmem n).trans ⟨?_, ?_⟩⟩
      · rintro ⟨ps, b, u, ht, hps, h⟩
        exact ⟨ps, b, u, ht, Nat.lt_succ_of_lt hps, h⟩
      · rintro ⟨ps, b, u, ht, hps, hlayout, hb, h⟩
        refine ⟨ps, b, u, ht, lt_of_le_of_ne (Nat.lt_succ_iff.1 hps) fun hlen => ?_, hlayout, hb, h⟩
        rw [parse_withOperands_of_gap (ht ▸ hp) hlen hlayout hb] at hk
        cases hk
    | some m =>
      obtain ⟨_, ps, h₀, hlen, hlayout, -, -⟩ := parse_withOperands_iff.1 hk
      obtain ⟨-, ht⟩ : _ ∧ t = gapped ps ++ m.2 := by simpa [hp] using h₀
      have hsilent := silent_withOperands hsilent k hk
      obtain ⟨hlength, hlast⟩ := notes_gap_number m.2
      rw [notes_append_of_some hk, hsilent, List.nil_append]
      refine ⟨hlength, fun n => (hlast n).trans ⟨?_, ?_⟩⟩
      · rintro ⟨b, u, hm, h⟩
        exact ⟨ps, b, u, hm ▸ ht, hlen ▸ Nat.lt_succ_self _, hlayout, h⟩
      · rintro ⟨ps', b, u, ht', hlt, hlayout', hb, h⟩
        rcases Nat.lt_succ_iff_lt_or_eq.1 hlt with hlt | hlen'
        · -- fewer numbers than have been taken: then none was wanted there
          have hn := (hmem n).2 ⟨ps', b, u, ht', hlt, hlayout', hb, h⟩
          rw [hsilent] at hn
          cases hn
        · have hm := parse_withOperands_of_gap (ht' ▸ hp) hlen' hlayout' hb
          rw [hk, Option.some.injEq] at hm
          exact ⟨b, u, congrArg Prod.snd hm, hb, h⟩

/-- A form that does not stand at the front notes itself. -/
theorem notes_form_of_untagged {form : TransformForm} (h : ¬ form.tag.toList <+: s) :
    form.rule.pattern.notes s = [⟨form.rule, s⟩] := by
  have htag : (Pattern.text form.tag).parse s = none := parse_word_eq_none_iff.2 h
  have hoperands (k : Nat) : (withOperands (Pattern.text form.tag) k).parse s = none ∧
      (withOperands (Pattern.text form.tag) k).notes s = [] := by
    induction k with
    | zero => exact ⟨htag, notes_eq_nil rfl s⟩
    | succ k ih =>
      obtain ⟨hnone, hnotes⟩ := ih
      rw [withOperands, notes_append_assoc, notes_append_of_none hnone, hnotes]
      exact ⟨parse_append_of_none (parse_append_of_none hnone), rfl⟩
  rw [form.pattern_rule]
  exact notes_rule_eq_singleton (hoperands _).1 (hoperands _).2

/-- **A form notes itself, or the number that it wants.** -/
theorem mem_notes_form {form : TransformForm} (h : n ∈ form.rule.pattern.notes s) :
    n = ⟨form.rule, s⟩ ∨ n.rule = .number ∧ WantsNumber form s n.rest := by
  by_cases htag : form.tag.toList <+: s
  case neg =>
    rw [notes_form_of_untagged htag] at h
    exact .inl (List.mem_singleton.1 h)
  case pos =>
    obtain ⟨t, rfl⟩ := htag
    rw [form.pattern_rule] at h
    refine (mem_notes_rule h).imp And.left fun hbody => ?_
    obtain ⟨ps, b, u, rfl, hlen, hps, hb, hu, hstop, rfl⟩ :=
      ((notes_withOperands (parse_word_iff.2 ⟨rfl, rfl⟩) (silent_of_rules rfl) _).2 n).1 hbody
    exact ⟨rfl, ps, b, rfl, hlen, hps, hb, hu, hstop⟩

/-- **A form that wants a number notes nothing else.** -/
theorem WantsNumber.notes {form : TransformForm} (h : WantsNumber form s u) :
    form.rule.pattern.parse s = none ∧ form.rule.pattern.notes s = [⟨.number, u⟩] := by
  obtain ⟨ps, b, rfl, hlen, hps, hb, hu, hstop⟩ := h
  obtain ⟨hlength, hmem⟩ := notes_withOperands (t := gapped ps ++ (b ++ u))
    (p := Pattern.text form.tag) (parse_word_iff.2 ⟨rfl, rfl⟩) (silent_of_rules rfl) form.arity
  have hn := (hmem ⟨.number, u⟩).2 ⟨ps, b, u, rfl, hlen, hps, hb, hu, hstop, rfl⟩
  obtain ⟨n, hnotes⟩ := List.length_eq_one_iff.1
    (hlength.antisymm (List.length_pos_of_mem hn))
  rw [hnotes, List.mem_singleton] at hn
  subst hn
  have hnone : (withOperands (Pattern.text form.tag) form.arity).parse
      (form.tag.toList ++ (gapped ps ++ (b ++ u))) = none := by
    refine Option.eq_none_iff_forall_ne_some.2 fun m hm => ?_
    rw [silent_withOperands (silent_of_rules rfl) _ hm] at hnotes
    cases hnotes
  rw [form.pattern_rule, notes_rule_of_none hnone, hnotes]
  exact ⟨parse_rule_eq_none_iff.2 hnone, if_pos (.inl rfl)⟩

theorem mem_notes_forms (h : n ∈ (rotate <|> scale <|> translate).notes s) :
    ∃ form : TransformForm, n ∈ form.rule.pattern.notes s := by
  cases hrotate : rotate.parse s with
  | some m => exact ⟨.rotate, by rwa [notes_orElse_of_some hrotate] at h⟩
  | none =>
    rw [notes_orElse_of_none hrotate, List.mem_append] at h
    refine h.elim (fun h => ⟨.rotate, h⟩) fun h => ?_
    cases hscale : scale.parse s with
    | some m => exact ⟨.scale, by rwa [notes_orElse_of_some hscale] at h⟩
    | none =>
      rw [notes_orElse_of_none hscale, List.mem_append] at h
      exact h.elim (fun h => ⟨.scale, h⟩) fun h => ⟨.translate, h⟩

/-- Where no form matches, each has been tried. -/
theorem notes_forms_of_none (h : (rotate <|> scale <|> translate).parse s = none) :
    (rotate <|> scale <|> translate).notes s =
      rotate.notes s ++ (scale.notes s ++ translate.notes s) := by
  obtain ⟨hrotate, h⟩ := parse_orElse_eq_none_iff.1 h
  rw [notes_orElse_of_none hrotate, notes_orElse_of_none (parse_orElse_eq_none_iff.1 h).1]

/-- A transform fails as the forms do behind the blanks. -/
theorem parse_transform_eq_none_iff : transform.parse s = none ↔
    (rotate <|> scale <|> translate).parse (s.dropWhile isBlank) = none := by
  rw [transform, parse_rule_eq_none_iff, ← parse_blanks_append_eq_none_iff]
  constructor
  · intro h
    refine Option.eq_none_iff_forall_ne_some.2 fun ⟨f, mid⟩ hforms => ?_
    obtain ⟨g, rest, hblanks⟩ : ∃ g rest, blanks.parse mid = some (g, rest) :=
      exists_parse_many blank mid
    rw [parse_append_iff.2 ⟨_, _, _, hforms, hblanks, rfl⟩] at h
    cases h
  · exact parse_append_of_none

theorem notes_transformBody : (blanks ++ (rotate <|> scale <|> translate) ++ blanks).notes s =
    (rotate <|> scale <|> translate).notes (s.dropWhile isBlank) := by
  rw [notes_append_assoc, notes_blanks_append]
  cases h : (rotate <|> scale <|> translate).parse (s.dropWhile isBlank) with
  | none => exact notes_append_of_none h
  | some m => rw [notes_append_of_some h, notes_eq_nil (p := blanks) rfl, List.append_nil]

/-- **A transform notes itself, a form behind the blanks, or the number that a form wants.** -/
theorem mem_notes_transform (h : n ∈ transform.notes s) :
    n.Opens s ∧ n.rule ≠ .lineEnd ∨ n.rule = .number ∧
      ∃ form, WantsNumber form (s.dropWhile isBlank) n.rest := by
  rcases mem_notes_rule h with ⟨rfl, -⟩ | hbody
  · exact .inl ⟨Note.opens_self _ _, by simp⟩
  · rw [notes_transformBody] at hbody
    obtain ⟨form, hform⟩ := mem_notes_forms hbody
    rcases mem_notes_form hform with rfl | ⟨hrule, hwants⟩
    · refine .inl ⟨⟨s.takeWhile isBlank, List.takeWhile_append_dropWhile.symm, fun c hc => ?_⟩, ?_⟩
      · simp [isSpacing, of_mem_takeWhile hc]
      · cases form <;> simp [TransformForm.rule]
    · exact .inr ⟨hrule, form, hwants⟩

/-- A form is told by its tag. -/
theorem WantsNumber.form_eq {form form' : TransformForm} {v : List Char}
    (h : WantsNumber form s u) (h' : s = form'.tag.toList ++ v) : form = form' := by
  obtain ⟨ps, b, hs, -⟩ := h
  rw [hs] at h'
  cases form <;> cases form' <;> first | rfl | simp [TransformForm.tag] at h'

/-- A tag opens a transform that wants a number. -/
theorem WantsNumber.opening_mem {form : TransformForm}
    (h : WantsNumber form (s.dropWhile isBlank) u) :
    opening s ∈ [some 'r', some 's', some 't'] := by
  obtain ⟨ps, b, hs, -⟩ := h
  rw [← List.takeWhile_append_dropWhile (p := isBlank) (l := s), hs]
  exact opening_tag form (fun c => of_mem_takeWhile) _

/-- Where a number is wanted, no transform matches. -/
theorem WantsNumber.parse_transform {form : TransformForm}
    (h : WantsNumber form (s.dropWhile isBlank) u) : transform.parse s = none := by
  refine Option.eq_none_iff_forall_ne_some.2 fun ⟨f, rest⟩ hparse => ?_
  obtain ⟨g, hg, -⟩ := (Rule.parse_pattern_iff (r := .transform) rfl).1 hparse
  obtain ⟨b, form', ps, b', hs, hb, hlen, hps, -, -, hstop, -⟩ := matches_transform_iff.1 hg
  have hdrop : s.dropWhile isBlank = form'.tag.toList ++ (gapped ps ++ (b' ++ rest)) := by
    rw [hs, dropWhile_append_of_stops hb]
    exact form'.isRun_tag.stops (fun c hc => (inWords_isAlpha c hc).1) _
  obtain rfl := h.form_eq hdrop
  have hmatches := matches_form_iff.2 ⟨ps, hdrop, hlen, hps, hstop, rfl⟩
  rw [Rule.Matches, h.notes.1] at hmatches
  cases hmatches

/-! ## Shapes -/

theorem total_comment : comment.Total := by
  refine Total.rule fun s => ?_
  by_cases hs : Stops isBlank s
  · exact Option.isSome_of_eq_some ((Rule.matches_iff (r := .comment) rfl).1
      (matches_comment_iff.2 (.inr ⟨hs, rfl, rfl⟩)))
  · exact Option.isSome_of_eq_some ((Rule.matches_iff (r := .comment) rfl).1
      (matches_comment_iff.2 (.inl ⟨_, _, List.takeWhile_append_dropWhile.symm, isRun_takeWhile hs,
        stops_dropWhile _ s, rfl, rfl⟩)))

theorem silent_comment : comment.Silent := by
  refine Silent.rule fun s m h => ?_
  have hgap (s : List Char) : (gap ++ name).notes s = [] := by
    cases h : gap.parse s with
    | none => rw [notes_append_of_none h, notes_eq_nil rfl]
    | some m =>
      rw [notes_append_of_some h, notes_eq_nil rfl, List.nil_append]
      exact (notes_rule_of_some rfl).trans (notes_eq_nil rfl _)
  cases h : (gap ++ name).parse s with
  | none => rw [notes_orElse_of_none h, hgap, notes_eq_nil rfl, List.nil_append]
  | some m => rw [notes_orElse_of_some h, hgap]

theorem silent_drawStyle : drawStyle.Silent :=
  (((((silent_of_rules rfl).append (silent_token _ _)).append (silent_of_rules rfl)).append
    (silent_token _ _)).append (silent_of_rules rfl)).rule

/-- What can be wrong with a style line: the style, or the color behind a style and a gap. -/
theorem mem_notes_drawStyle (h : n ∈ drawStyle.notes s) :
    (∃ b, s = b ++ n.rest ∧ IsBlankLine b) ∨ (∃ b w q, s = b ++ (w ++ (q ++ n.rest)) ∧
      IsBlankLine b ∧ IsRun Char.isAlpha w ∧ IsRun isBlank q ∧ Stops isBlank n.rest) := by
  rcases mem_notes_rule h with ⟨rfl, -⟩ | hbody
  · exact .inl ⟨[], rfl, isBlankLine_nil⟩
  rw [notes_append_assoc, notes_append_assoc, notes_append_assoc, notes_blanks_append] at hbody
  have hs : s = s.takeWhile isBlank ++ s.dropWhile isBlank :=
    List.takeWhile_append_dropWhile.symm
  have hb : IsBlankLine (s.takeWhile isBlank) := fun c => of_mem_takeWhile
  rcases mem_notes_append hbody with hstyle | ⟨_, _, hstyle, hcolor⟩
  · obtain ⟨-, rfl⟩ := mem_notes_token_iff.1 hstyle
    exact .inl ⟨_, hs, hb⟩
  obtain ⟨w, hw, hrun, -, -⟩ := parse_token_iff.1 hstyle
  rcases mem_notes_append hcolor with hgap | ⟨_, _, hgap, hcolor⟩
  · simp [notes_eq_nil (p := gap) rfl] at hgap
  obtain ⟨q, hmid, hq, hstop, -⟩ := parse_gap_iff.1 hgap
  rcases mem_notes_append hcolor with hcolor | ⟨_, _, -, hblanks⟩
  · obtain ⟨-, rfl⟩ := mem_notes_token_iff.1 hcolor
    exact .inr ⟨_, w, q, hmid ▸ hw ▸ hs, hb, hrun, hq, hstop⟩
  · simp [notes_eq_nil (p := blanks) rfl] at hblanks

theorem mem_notes_kinds (h : n ∈ (unitSquare <|> unitCircle).notes s) :
    n.rest = s ∧ n.rule ≠ .lineEnd := by
  have hkeyword {r : Rule} {w : List Char} (hr : r ≠ .lineEnd) (h : n ∈ (rule r (word w)).notes s) :
      n.rest = s ∧ n.rule ≠ .lineEnd := by
    cases hw : (word w).parse s with
    | none =>
      rw [notes_rule_eq_singleton hw rfl, List.mem_singleton] at h
      exact ⟨by rw [h], by rwa [h]⟩
    | some m =>
      rw [notes_rule_of_some hw] at h
      cases h
  cases hsquare : unitSquare.parse s with
  | none =>
    rw [notes_orElse_of_none hsquare, List.mem_append] at h
    exact h.elim (hkeyword (by simp)) (hkeyword (by simp))
  | some m =>
    rw [notes_orElse_of_some hsquare] at h
    exact hkeyword (by simp) h

/-- A shape is given up on its own lines: at the end of its header, or in its style line. -/
def FailsInside (s : List Char) (n : Note) : Prop :=
  ∃ (b : List Char) (kind : ShapeKind) (u : List Char) (g : Forest) (a : List Char),
    s = b ++ (kind.keyword.toList ++ u) ∧ IsBlankLine b ∧
    Rule.comment.Matches u g a ∧ (n.rule = .lineEnd ∧ n.rest = a ∧ dropLineEnd? a = none ∨
      ∃ v, dropLineEnd? a = some v ∧ n ∈ drawStyle.notes v)

/-- The pieces of a shape's first two lines behind the indentation. -/
theorem notes_shapeBody : (blanks ++ (unitSquare <|> unitCircle) ++ comment ++ lineEnd ++
      drawStyle).notes s =
    ((unitSquare <|> unitCircle) ++ (comment ++ (lineEnd ++ drawStyle))).notes
      (s.dropWhile isBlank) := by
  rw [notes_append_assoc, notes_append_assoc, notes_append_assoc, notes_blanks_append]

/-- **A shape notes itself or a keyword behind the blanks**, or fails on its own lines. -/
theorem mem_notes_shapeHead (h : n ∈ shapeHead.notes s) :
    n.Opens s ∧ n.rule ≠ .lineEnd ∨ FailsInside s n := by
  rcases mem_notes_rule h with ⟨rfl, -⟩ | hbody
  · exact .inl ⟨Note.opens_self _ _, by simp⟩
  have hs : s = s.takeWhile isBlank ++ s.dropWhile isBlank :=
    List.takeWhile_append_dropWhile.symm
  have hb : IsBlankLine (s.takeWhile isBlank) := fun c => of_mem_takeWhile
  rw [notes_shapeBody] at hbody
  rcases mem_notes_append hbody with hkind | ⟨_, u, hkind, hheader⟩
  · obtain ⟨hrest, hrule⟩ := mem_notes_kinds hkind
    exact .inl ⟨⟨_, hrest ▸ hs, hb.isSpacing⟩, hrule⟩
  obtain ⟨kind, hkeyword, -⟩ := parse_kinds_iff.1 hkind
  rcases mem_notes_append hheader with hcomment | ⟨_, a, hcomment, hlines⟩
  · obtain ⟨⟨f, a⟩, ha⟩ := Option.isSome_iff_exists.1 (total_comment u)
    rw [silent_comment ha] at hcomment
    cases hcomment
  obtain ⟨g, hg, -⟩ := (Rule.parse_pattern_iff (r := .comment) rfl).1 hcomment
  refine .inr ⟨_, kind, u, g, a, hkeyword ▸ hs, hb, hg, ?_⟩
  rcases mem_notes_append hlines with hend | ⟨_, v, hend, hstyle⟩
  · obtain ⟨hdrop, rfl⟩ := mem_notes_lineEnd_iff.1 hend
    exact .inl ⟨rfl, rfl, hdrop⟩
  · obtain ⟨_, hdrop, -⟩ := parse_lineEnd_iff.1 hend
    exact .inr ⟨v, hdrop, hstyle⟩

/-- A keyword opens a shape that fails on its own lines. -/
theorem FailsInside.opening_eq (h : FailsInside s n) : opening s = some 'u' := by
  obtain ⟨b, kind, u, _, _, rfl, hb, -⟩ := h
  cases kind <;> exact opening_append hb.isSpacing rfl _

/-- A shape that matches notes nothing behind its keyword. -/
theorem opens_of_mem_notes_shapeHead {m : Match} (hm : shapeHead.parse s = some m)
    (h : n ∈ shapeHead.notes s) : n.Opens s := by
  obtain ⟨f, hbody, -⟩ := parse_rule_iff.1 hm
  obtain ⟨_, _, _, hlines, -, -⟩ := parse_append_iff.1 hbody
  obtain ⟨_, _, _, hheader, -, -⟩ := parse_append_iff.1 hlines
  have hnotes : shapeHead.notes s = (unitSquare <|> unitCircle).notes (s.dropWhile isBlank) := by
    rw [shapeHead, notes_rule_of_some hbody, silent_drawStyle.notes_append hbody,
      silent_lineEnd.notes_append hlines, silent_comment.notes_append hheader, notes_blanks_append]
  rw [hnotes] at h
  refine ⟨s.takeWhile isBlank, ?_, IsBlankLine.isSpacing fun c => of_mem_takeWhile⟩
  rw [(mem_notes_kinds h).1, List.takeWhile_append_dropWhile]

/-! ## Groups -/

/-- A group notes nothing but itself. -/
theorem notes_groupBody : (many (blank <|> newline) ++ text "group" ++ comment).notes s = [] := by
  refine List.eq_nil_iff_forall_not_mem.2 fun n hn => ?_
  rcases mem_notes_append hn with hn | ⟨_, u, -, hn⟩
  · rw [notes_eq_nil rfl] at hn
    cases hn
  · obtain ⟨m, hm⟩ := Option.isSome_iff_exists.1 (total_comment u)
    rw [silent_comment hm] at hn
    cases hn

theorem silent_groupHead : groupHead.Silent := fun s _ h => by
  obtain ⟨_, h, -⟩ := parse_rule_iff.1 h
  rw [groupHead, notes_rule_of_some h, notes_groupBody]

theorem notes_groupHead_of_none (h : groupHead.parse s = none) :
    groupHead.notes s = [⟨.group, s⟩] :=
  notes_rule_eq_singleton (parse_rule_eq_none_iff.1 h) notes_groupBody

theorem mem_notes_groupSeparator_iff :
    n ∈ groupSeparator.notes s ↔ n = ⟨.lineEnd, s.dropWhile isLineBreak⟩ := by
  cases h : lineEnd.parse s with
  | none =>
    have hdrop := parse_newline_eq_none_iff.1 (parse_rule_eq_none_iff.1 h)
    rw [groupSeparator, notes_append_of_none h, mem_notes_lineEnd_iff,
      dropWhile_of_stops (dropLineEnd?_eq_none_iff.1 hdrop)]
    simp [hdrop]
  | some m =>
    obtain ⟨_, hdrop, -⟩ := parse_lineEnd_iff.1 h
    rw [groupSeparator, notes_append_of_some h, silent_lineEnd h, List.nil_append,
      mem_notes_lineEnds_iff, dropWhile_of_dropLineEnd? (fun _ h => h) hdrop]

/-! ## Items -/

theorem notes_transformItem (h : dropLineEnd? s = some t) :
    transformItem.notes s = transform.notes t := by
  obtain ⟨f, hf⟩ := exists_parse_lineEnd h
  rw [transformItem, notes_append_of_some hf, silent_lineEnd hf, List.nil_append]

theorem mem_notes_shapeItem_iff (h : dropLineEnd? s = some t) : n ∈ shapeItem.notes s ↔
    n = ⟨.lineEnd, s.dropWhile isLineBreak⟩ ∨ n ∈ shapeHead.notes (s.dropWhile isLineBreak) := by
  obtain ⟨f, hf⟩ := exists_parse_lineEnds_iff.2 ⟨Option.ne_none_iff_exists'.2 ⟨t, h⟩, rfl⟩
  rw [shapeItem, notes_append_of_some hf, List.mem_append, mem_notes_lineEnds_iff]

/-- An item that fails is tried as a transform, a shape and a group. -/
theorem mem_notes_item_iff (h : item.parse s = none) : n ∈ item.notes s ↔
    n ∈ transformItem.notes s ∨ n ∈ shapeItem.notes s ∨ n ∈ groupItem.notes s := by
  obtain ⟨hinner, -⟩ := parse_orElse_eq_none_iff.1 h
  obtain ⟨htransform, -⟩ := parse_orElse_eq_none_iff.1 hinner
  rw [item, notes_orElse_of_none hinner, notes_orElse_of_none htransform, List.mem_append,
    List.mem_append, or_assoc]

/-- What an item notes, it notes as a transform, a shape or a group. -/
theorem mem_notes_item (h : n ∈ item.notes s) :
    n ∈ transformItem.notes s ∨ n ∈ shapeItem.notes s ∨ n ∈ groupItem.notes s := by
  cases hinner : (transformItem <|> shapeItem).parse s with
  | none =>
    obtain ⟨htransform, -⟩ := parse_orElse_eq_none_iff.1 hinner
    rwa [item, notes_orElse_of_none hinner, notes_orElse_of_none htransform, List.mem_append,
      List.mem_append, or_assoc] at h
  | some m =>
    rw [item, notes_orElse_of_some hinner] at h
    cases htransform : transformItem.parse s with
    | none =>
      rw [notes_orElse_of_none htransform, List.mem_append] at h
      exact h.imp_right .inl
    | some m => exact .inl (by rwa [notes_orElse_of_some htransform] at h)

theorem opens_of_mem_notes_groupItem (h : n ∈ groupItem.notes s) :
    n.Opens s ∧ (n.rule = .lineEnd → n.rest = s.dropWhile isLineBreak) := by
  rcases mem_notes_append h with h | ⟨f, t, hsep, h⟩
  · obtain rfl := mem_notes_groupSeparator_iff.1 h
    exact ⟨Note.opens_dropWhile_isLineBreak _ _, fun _ => rfl⟩
  obtain ⟨_, _, -, -, rfl⟩ := exists_parse_groupSeparator_iff.1 ⟨f, hsep⟩
  cases hhead : groupHead.parse (s.dropWhile isLineBreak) with
  | some m =>
    rw [silent_groupHead hhead] at h
    cases h
  | none =>
    rw [notes_groupHead_of_none hhead, List.mem_singleton] at h
    subst h
    exact ⟨Note.opens_dropWhile_isLineBreak _ _, fun _ => rfl⟩

/-- **Where an item can fail.** -/
theorem mem_notes_item_cases (h : n ∈ item.notes s) :
    n.Opens s ∧ (n.rule = .lineEnd → n.rest = s.dropWhile isLineBreak) ∨
      (n.rule = .number ∧ ∃ t form, dropLineEnd? s = some t ∧
        WantsNumber form (t.dropWhile isBlank) n.rest) ∨
      dropLineEnd? s ≠ none ∧ FailsInside (s.dropWhile isLineBreak) n := by
  rcases mem_notes_item h with h | h | h
  · rcases mem_notes_append h with h | ⟨f, t, hend, h⟩
    · obtain ⟨hdrop, rfl⟩ := mem_notes_lineEnd_iff.1 h
      exact .inl ⟨Note.opens_self _ _, fun _ =>
        (dropWhile_of_stops (dropLineEnd?_eq_none_iff.1 hdrop)).symm⟩
    · obtain ⟨_, hdrop, -⟩ := parse_lineEnd_iff.1 hend
      rcases mem_notes_transform h with ⟨hopens, hrule⟩ | ⟨hrule, form, hwants⟩
      · exact .inl ⟨hopens.of_dropLineEnd? hdrop, fun h => absurd h hrule⟩
      · exact .inr (.inl ⟨hrule, t, form, hdrop, hwants⟩)
  · rcases mem_notes_append h with h | ⟨f, t, hend, h⟩
    · obtain rfl := mem_notes_lineEnds_iff.1 h
      exact .inl ⟨Note.opens_dropWhile_isLineBreak _ _, fun _ => rfl⟩
    · obtain ⟨hdrop, rfl⟩ := exists_parse_lineEnds_iff.1 ⟨f, hend⟩
      rcases mem_notes_shapeHead h with ⟨hopens, hrule⟩ | hinside
      · exact .inl ⟨hopens.of_dropWhile_isLineBreak, fun h => absurd h hrule⟩
      · exact .inr (.inr ⟨hdrop, hinside⟩)
  · exact .inl (opens_of_mem_notes_groupItem h)

/-- **An item that matches notes nothing behind what opens it.** -/
theorem opens_of_mem_notes_item {m : Match} (hm : item.parse s = some m) (h : n ∈ item.notes s) :
    n.Opens s := by
  rcases mem_notes_item h with h | h | h
  · rcases mem_notes_append h with h | ⟨f, t, hend, h⟩
    · obtain ⟨-, rfl⟩ := mem_notes_lineEnd_iff.1 h
      exact Note.opens_self _ _
    obtain ⟨_, hdrop, -⟩ := parse_lineEnd_iff.1 hend
    rcases mem_notes_transform h with ⟨hopens, -⟩ | ⟨-, form, hwants⟩
    · exact hopens.of_dropLineEnd? hdrop
    -- a tag opens the text, so it is a transform that has matched
    have hopening := opening_of_dropLineEnd? hdrop ▸ hwants.opening_mem
    obtain ⟨_, _, _, hend', htransform, -⟩ :=
      parse_append_iff.1 (parse_transformItem_of_opening hm hopening)
    rw [hend, Option.some.injEq] at hend'
    cases hend'
    rw [hwants.parse_transform] at htransform
    cases htransform
  · rcases mem_notes_append h with h | ⟨f, t, hend, h⟩
    · obtain rfl := mem_notes_lineEnds_iff.1 h
      exact Note.opens_dropWhile_isLineBreak _ _
    obtain ⟨-, rfl⟩ := exists_parse_lineEnds_iff.1 ⟨f, hend⟩
    rcases mem_notes_shapeHead h with ⟨hopens, -⟩ | hinside
    · exact hopens.of_dropWhile_isLineBreak
    -- a keyword opens the text, so it is a shape that has matched
    have hopening := opening_dropWhile_isLineBreak s ▸ hinside.opening_eq
    rcases parse_item_iff.1 hm with hm | hm | hm
    · have htag := opening_transformItem hm
      simp [hopening] at htag
    · obtain ⟨_, _, _, hend', hhead, -⟩ := parse_append_iff.1 hm
      rw [hend, Option.some.injEq] at hend'
      cases hend'
      exact (opens_of_mem_notes_shapeHead hhead h).of_dropWhile_isLineBreak
    · simp [opening_groupItem hm] at hopening
  · exact (opens_of_mem_notes_groupItem h).1

end Pattern

end SceneText
