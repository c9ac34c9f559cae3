import SceneText.Grammar.Scene
import SceneText.Proofs.Grammar.Match
import SceneText.Proofs.Number.Numeral
import SceneText.Proofs.Text.Words

/-!
# Proofs/Grammar/Tokens — blanks, line ends, and lines of tokens

What the smallest patterns of the scene grammar take, as pieces of the text.  Points, style lines
and transforms are lines of tokens between gaps, and where such a match ends with its line, the
tokens are the words of the line (`firstLine_of_tokens`).
-/

namespace SceneText

variable {s rest : List Char} {f g : Forest}

/-- A rule matches at the front of a text: it gathers `g` and leaves `rest`. -/
def Rule.Matches (r : Rule) (s : List Char) (g : Forest) (rest : List Char) : Prop :=
  r.pattern.parse s = some (.node r g .nil, rest)

/-- A rule that gathers a node matches as its body does. -/
theorem Rule.matches_iff {r : Rule} {body : Pattern} (hr : r.pattern = .rule r body) :
    r.Matches s g rest ↔ body.parse s = some (g, rest) := by
  rw [Matches, hr, Pattern.parse_rule_iff]
  simp

/-- What a rule matches is the node of a match. -/
theorem Rule.parse_pattern_iff {r : Rule} {body : Pattern} (hr : r.pattern = .rule r body) :
    r.pattern.parse s = some (f, rest) ↔ ∃ g, r.Matches s g rest ∧ f = .node r g .nil := by
  simp only [Rule.matches_iff hr]
  rw [hr, Pattern.parse_rule_iff]

/-- What a rule gathers and what it leaves make up the text. -/
theorem Rule.Matches.toList_append {r : Rule} (h : r.Matches s g rest) : g.toList ++ rest = s := by
  simpa [Forest.toList] using Pattern.toList_parse h

/-- A rule matches in one way. -/
theorem Rule.Matches.unique {r : Rule} {g' : Forest} {rest' : List Char} (h : r.Matches s g rest)
    (h' : r.Matches s g' rest') : g = g' ∧ rest = rest' := by
  rw [Rule.Matches, h] at h'
  cases h'
  exact ⟨rfl, rfl⟩

namespace Pattern

/-! ## Blanks and line ends -/

theorem parse_blanks_iff : blanks.parse s = some (f, rest) ↔
    ∃ b, s = b ++ rest ∧ IsBlankLine b ∧ Stops isBlank rest ∧ f = .run b :=
  parse_many_char_iff

theorem parse_gap_iff : gap.parse s = some (f, rest) ↔
    ∃ b, s = b ++ rest ∧ IsRun isBlank b ∧ Stops isBlank rest ∧ f = .run b := by
  rw [gap, blank, parse_oneOrMore_char_iff]
  simp only [IsRun, and_assoc]

theorem parse_newline_iff : newline.parse s = some (f, rest) ↔
    ∃ brk, dropLineEnd? s = some rest ∧ s = brk ++ rest ∧ f = .text brk .nil := by
  constructor
  · intro h
    rcases parse_orElse_iff.1 h with h | ⟨-, h⟩
    · obtain ⟨rfl, rfl⟩ := parse_word_iff.1 h
      exact ⟨_, rfl, rfl, rfl⟩
    · rcases parse_orElse_iff.1 h with h | ⟨hcrlf, h⟩
      · obtain ⟨rfl, rfl⟩ := parse_word_iff.1 h
        exact ⟨_, rfl, rfl, rfl⟩
      · -- a carriage return alone, as the pair with a line feed has been tried
        obtain ⟨rfl, rfl⟩ := parse_word_iff.1 h
        refine ⟨_, dropLineEnd?_eq_some_iff.2 ⟨_, rfl, .inr (.inr ⟨rfl, fun hhead => ?_⟩)⟩, rfl,
          rfl⟩
        obtain ⟨t, rfl⟩ := List.head?_eq_some_iff.1 hhead
        exact parse_word_eq_none_iff.1 hcrlf ⟨t, rfl⟩
  · rintro ⟨brk, hdrop, rfl, rfl⟩
    obtain ⟨brk', hbrk, hcases⟩ := dropLineEnd?_eq_some_iff.1 hdrop
    obtain rfl := List.append_cancel_right hbrk
    rcases hcases with rfl | rfl | ⟨rfl, hhead⟩
    · rfl
    · rfl
    · refine parse_orElse_iff.2 (.inr ⟨rfl, parse_orElse_iff.2 (.inr ⟨?_, rfl⟩)⟩)
      refine parse_word_eq_none_iff.2 fun ⟨t, ht⟩ => hhead ?_
      cases ht
      rfl

/-- A line end is taken where there is one. -/
theorem parse_lineEnd_iff : lineEnd.parse s = some (f, rest) ↔
    ∃ brk, dropLineEnd? s = some rest ∧ s = brk ++ rest ∧
      f = .node .lineEnd (.text brk .nil) .nil := by
  rw [lineEnd, parse_rule_iff]
  simp only [parse_newline_iff]
  constructor
  · rintro ⟨_, ⟨brk, hdrop, hs, rfl⟩, rfl⟩
    exact ⟨brk, hdrop, hs, rfl⟩
  · rintro ⟨brk, hdrop, hs, rfl⟩
    exact ⟨_, ⟨brk, hdrop, hs, rfl⟩, rfl⟩

theorem exists_parse_lineEnd (h : dropLineEnd? s = some rest) :
    ∃ f, lineEnd.parse s = some (f, rest) := by
  obtain ⟨brk, hs, -⟩ := dropLineEnd?_eq_some_iff.1 h
  exact ⟨_, parse_lineEnd_iff.2 ⟨brk, h, hs, rfl⟩⟩

theorem parse_newline_eq_none_iff : newline.parse s = none ↔ dropLineEnd? s = none := by
  constructor
  · intro h
    by_contra hdrop
    obtain ⟨t, ht⟩ := Option.ne_none_iff_exists'.1 hdrop
    obtain ⟨brk, hs, -⟩ := dropLineEnd?_eq_some_iff.1 ht
    rw [parse_newline_iff.2 ⟨brk, ht, hs, rfl⟩] at h
    cases h
  · intro h
    refine Option.eq_none_iff_forall_ne_some.2 fun ⟨f, rest⟩ hparse => ?_
    obtain ⟨brk, hdrop, -⟩ := parse_newline_iff.1 hparse
    rw [h] at hdrop
    cases hdrop

/-- A character before the end of a line. -/
theorem parse_inLine_iff : (absent newline ++ char fun _ => true).parse s = some (f, rest) ↔
    ∃ c, (!isLineBreak c) = true ∧ s = c :: rest ∧ f = .text [c] .nil := by
  simp only [parse_append_iff, parse_absent_iff, parse_newline_eq_none_iff,
    dropLineEnd?_eq_none_iff, parse_char_iff]
  constructor
  · rintro ⟨_, _, _, ⟨hs, rfl, rfl⟩, ⟨c, -, rfl, rfl⟩, rfl⟩
    exact ⟨c, by simpa using hs, rfl, rfl⟩
  · rintro ⟨c, hc, rfl, rfl⟩
    exact ⟨_, _, _, ⟨by simpa using hc, rfl, rfl⟩, ⟨c, trivial, rfl, rfl⟩, rfl⟩

/-- **Line ends are taken as long as the text goes on with line breaks.** -/
theorem rest_of_parse_lineEnds (h : (many lineEnd).parse s = some (f, rest)) :
    rest = s.dropWhile isLineBreak := by
  have hturns := (parse_many_iff rfl).1 h
  clear h
  induction hturns with
  | stop hnone =>
    have hdrop := parse_newline_eq_none_iff.1 (parse_rule_eq_none_iff.1 hnone)
    rw [dropWhile_of_stops (dropLineEnd?_eq_none_iff.1 hdrop)]
  | step hstep _ ih =>
    obtain ⟨_, hdrop, -⟩ := parse_lineEnd_iff.1 hstep
    rw [ih, dropWhile_of_dropLineEnd? (fun _ h => h) hdrop]

/-- One line end, and all that follow. -/
theorem exists_parse_lineEnds_iff : (∃ f, (oneOrMore lineEnd).parse s = some (f, rest)) ↔
    dropLineEnd? s ≠ none ∧ rest = s.dropWhile isLineBreak := by
  constructor
  · rintro ⟨f, h⟩
    obtain ⟨f₁, t, f₂, h₁, h₂, -⟩ := parse_append_iff.1 h
    obtain ⟨_, hdrop, -⟩ := parse_lineEnd_iff.1 h₁
    exact ⟨by simp [hdrop], by rw [rest_of_parse_lineEnds h₂,
      dropWhile_of_dropLineEnd? (fun _ h => h) hdrop]⟩
  · rintro ⟨hne, rfl⟩
    obtain ⟨t, hdrop⟩ := Option.ne_none_iff_exists'.1 hne
    obtain ⟨f₁, h₁⟩ := exists_parse_lineEnd hdrop
    obtain ⟨f₂, rest, h₂⟩ := exists_parse_many lineEnd t
    obtain rfl := rest_of_parse_lineEnds h₂
    rw [dropWhile_of_dropLineEnd? (fun _ h => h) hdrop]
    exact ⟨_, parse_append_iff.2 ⟨f₁, t, f₂, h₁, h₂, rfl⟩⟩

/-- **Spacing is taken to its end.** -/
theorem exists_parse_spacing_iff : (∃ f, (many (blank <|> newline)).parse s = some (f, rest)) ↔
    rest = s.dropWhile isSpacing := by
  have hrest {f : Forest} {rest : List Char}
      (h : (many (blank <|> newline)).parse s = some (f, rest)) : rest = s.dropWhile isSpacing := by
    have hturns := (parse_many_iff rfl).1 h
    clear h
    induction hturns with
    | stop hnone =>
      obtain ⟨hblank, hnewline⟩ := parse_orElse_eq_none_iff.1 hnone
      have hbreak := dropLineEnd?_eq_none_iff.1 (parse_newline_eq_none_iff.1 hnewline)
      rw [dropWhile_of_stops]
      intro c hc
      simp [isSpacing, parse_char_eq_none_iff.1 hblank c hc, hbreak c hc]
    | step hstep _ ih =>
      rw [ih]
      rcases parse_orElse_iff.1 hstep with h | ⟨-, h⟩
      · obtain ⟨c, hc, rfl, -⟩ := parse_char_iff.1 h
        rw [List.dropWhile_cons_of_pos (by simp [isSpacing, hc])]
      · obtain ⟨_, hdrop, -⟩ := parse_newline_iff.1 h
        rw [dropWhile_of_dropLineEnd? (fun c hc => by simp [isSpacing, hc]) hdrop]
  constructor
  · rintro ⟨f, h⟩
    exact hrest h
  · rintro rfl
    obtain ⟨f, rest, h⟩ := exists_parse_many (blank <|> newline) s
    obtain rfl := hrest h
    exact ⟨f, h⟩

/-! ## Tokens -/

/-- A run of characters of a class, gathered by a rule. -/
def token (r : Rule) (is : Char → Bool) : Pattern := .rule r (.oneOrMore (.char is))

/-- A class of characters that neither end words nor lines. -/
def InWords (is : Char → Bool) : Prop := ∀ c, is c → isBlank c = false ∧ isLineBreak c = false

theorem inWords_isNumberChar : InWords isNumberChar := by
  intro c hc
  have hne (d : Char) (hd : isNumberChar d = false) : c ≠ d := by
    rintro rfl
    rw [hd] at hc
    cases hc
  simp [isBlank, isLineBreak, hne ' ' rfl, hne '\t' rfl, hne '\n' rfl, hne '\r' rfl]

theorem inWords_isAlpha : InWords Char.isAlpha := by
  intro c hc
  exact inWords_isNumberChar c (by simp [isNumberChar, Char.isAlphanum, hc])

variable {r r' : Rule} {is is' : Char → Bool} {p : Pattern}

theorem parse_token_iff : (token r is).parse s = some (f, rest) ↔
    ∃ w, s = w ++ rest ∧ IsRun is w ∧ Stops is rest ∧ f = .node r (.run w) .nil := by
  rw [token, parse_rule_iff]
  simp only [parse_oneOrMore_char_iff]
  constructor
  · rintro ⟨_, ⟨w, hs, hne, hw, hrest, rfl⟩, rfl⟩
    exact ⟨w, hs, ⟨hne, hw⟩, hrest, rfl⟩
  · rintro ⟨w, hs, ⟨hne, hw⟩, hrest, rfl⟩
    exact ⟨_, ⟨w, hs, hne, hw, hrest, rfl⟩, rfl⟩

/-- **A gap and a token after something else.** -/
theorem parse_gap_token_iff (his : InWords is) : (p ++ gap ++ token r is).parse s = some (f, rest) ↔
    ∃ f₀ q, p.parse s = some (f₀, gapped [q] ++ rest) ∧ IsLayout is [q] ∧ Stops is rest ∧
      f = f₀ ++ (.run q.1 ++ .node r (.run q.2) .nil) := by
  simp only [gapped_cons, gapped_nil, List.append_nil, List.append_assoc, IsLayout,
    List.forall_mem_singleton]
  constructor
  · intro h
    obtain ⟨_, _, _, h₁, h₂, rfl⟩ := parse_append_iff.1 h
    obtain ⟨f₀, _, _, h₀, hgap, rfl⟩ := parse_append_iff.1 h₁
    obtain ⟨b, rfl, hb, -, rfl⟩ := parse_gap_iff.1 hgap
    obtain ⟨w, rfl, hw, hrest, rfl⟩ := parse_token_iff.1 h₂
    exact ⟨f₀, (b, w), h₀, ⟨hb, hw⟩, hrest, Forest.append_assoc _ _ _⟩
  · rintro ⟨f₀, ⟨b, w⟩, h₀, ⟨hb, hw⟩, hrest, rfl⟩
    refine parse_append_iff.2 ⟨_, _, _, parse_append_iff.2 ⟨_, _, _, h₀, ?_, rfl⟩,
      parse_token_iff.2 ⟨w, rfl, hw, hrest, rfl⟩, (Forest.append_assoc _ _ _).symm⟩
    exact parse_gap_iff.2 ⟨b, rfl, hb, hw.stops (fun c hc => (his c hc).1) _, rfl⟩

/-- Blanks and a token. -/
theorem parse_blanks_token_iff (his : InWords is) :
    (blanks ++ token r is).parse s = some (f, rest) ↔
      ∃ b w, s = b ++ (w ++ rest) ∧ IsBlankLine b ∧ IsRun is w ∧ Stops is rest ∧
        f = .run b ++ .node r (.run w) .nil := by
  constructor
  · intro h
    obtain ⟨_, _, _, h₁, h₂, rfl⟩ := parse_append_iff.1 h
    obtain ⟨b, rfl, hb, -, rfl⟩ := parse_blanks_iff.1 h₁
    obtain ⟨w, rfl, hw, hrest, rfl⟩ := parse_token_iff.1 h₂
    exact ⟨b, w, rfl, hb, hw, hrest, rfl⟩
  · rintro ⟨b, w, rfl, hb, hw, hrest, rfl⟩
    refine parse_append_iff.2 ⟨_, _, _, ?_, parse_token_iff.2 ⟨w, rfl, hw, hrest, rfl⟩, rfl⟩
    exact parse_blanks_iff.2 ⟨b, rfl, hb, hw.stops (fun c hc => (his c hc).1) _, rfl⟩

/-- A token before a gap is over. -/
theorem stops_gapped_cons {q : List Char × List Char} {ps : List (List Char × List Char)}
    (his : InWords is) (hps : IsLayout is' (q :: ps)) (t : List Char) :
    Stops is (gapped (q :: ps) ++ t) := by
  rw [gapped_cons, List.append_assoc]
  refine (hps q List.mem_cons_self).1.stops (fun c hc => ?_) _
  by_contra h
  rw [(his c (by simpa using h)).1] at hc
  cases hc

/-- **A line of two tokens**: points and style lines. -/
theorem parse_twoTokens_iff (his : InWords is) (his' : InWords is') :
    (blanks ++ token r is ++ gap ++ token r' is' ++ blanks).parse s = some (f, rest) ↔
      ∃ b w q b', s = b ++ (w ++ (gapped [q] ++ (b' ++ rest))) ∧ IsBlankLine b ∧ IsRun is w ∧
        IsLayout is' [q] ∧ IsBlankLine b' ∧ Stops isBlank rest ∧ Stops is' (b' ++ rest) ∧
        f = .run b ++ .node r (.run w) (.run q.1 ++ .node r' (.run q.2) (.run b')) := by
  constructor
  · intro h
    obtain ⟨_, _, _, h₁, h₂, rfl⟩ := parse_append_iff.1 h
    obtain ⟨b', rfl, hb', hrest, rfl⟩ := parse_blanks_iff.1 h₂
    obtain ⟨_, q, h₀, hq, hstop, rfl⟩ := (parse_gap_token_iff his').1 h₁
    obtain ⟨b, w, rfl, hb, hw, -, rfl⟩ := (parse_blanks_token_iff his).1 h₀
    exact ⟨b, w, q, b', rfl, hb, hw, hq, hb', hrest, hstop, by simp [Forest.append_assoc]⟩
  · rintro ⟨b, w, q, b', rfl, hb, hw, hq, hb', hrest, hstop, rfl⟩
    have hfirst := (parse_blanks_token_iff (r := r) his).2
      ⟨b, w, rfl, hb, hw, stops_gapped_cons his hq (b' ++ rest), rfl⟩
    have hsecond := (parse_gap_token_iff (r := r') his').2 ⟨_, q, hfirst, hq, hstop, rfl⟩
    exact parse_append_iff.2 ⟨_, _, _, hsecond, parse_blanks_iff.2 ⟨b', rfl, hb', hrest, rfl⟩,
      by simp [Forest.append_assoc]⟩

end Pattern

/-! ## Tokens as the words of a line -/

section Lines

variable {is is' : Char → Bool} {b b' w : List Char} {ps : List (List Char × List Char)}
  {ws : List (List Char)}

theorem isLineBreak_of_isBlank {c : Char} (h : isBlank c) : isLineBreak c = false := by
  rcases (by simpa [isBlank] using h : c = ' ' ∨ c = '\t') with rfl | rfl <;> rfl

theorem IsBlankLine.isLineBreak (hb : IsBlankLine b) : ∀ c ∈ b, isLineBreak c = false :=
  fun c hc => isLineBreak_of_isBlank (hb c hc)

theorem IsLayout.mono (h : IsLayout is ps) (his : ∀ c, is c → is' c) : IsLayout is' ps :=
  fun q hq => ⟨(h q hq).1, (h q hq).2.mono his⟩

theorem Pattern.InWords.isWord {c : Char} (his : InWords is) (hc : is c) : (!isBlank c) = true := by
  simp [(his c hc).1]

theorem isLineBreak_of_mem_gapped (his : Pattern.InWords is) (hps : IsLayout is ps) :
    ∀ c ∈ gapped ps, isLineBreak c = false := by
  intro c hc
  obtain ⟨q, hq, hc⟩ := List.mem_flatMap.1 hc
  rcases List.mem_append.1 hc with hc | hc
  · exact isLineBreak_of_isBlank ((hps q hq).1.2 c hc)
  · exact (his c ((hps q hq).2.2 c hc)).2

/-- **Tokens up to the end of a line are the words of the line.** -/
theorem firstLine_of_tokens (his : Pattern.InWords is) (his' : Pattern.InWords is')
    (hb : IsBlankLine b) (hw : IsRun is w) (hps : IsLayout is' ps) (hb' : IsBlankLine b')
    (hrest : AtLineEnd rest) (hs : s = b ++ (w ++ (gapped ps ++ (b' ++ rest)))) :
    rest = afterLine s ∧ words (firstLine s) = w :: ps.map Prod.snd := by
  have hline : ∀ c ∈ b ++ (w ++ (gapped ps ++ b')), isLineBreak c = false := by
    simp only [List.forall_mem_append]
    exact ⟨hb.isLineBreak, fun c hc => (his c (hw.2 c hc)).2, isLineBreak_of_mem_gapped his' hps,
      hb'.isLineBreak⟩
  have hs' : s = b ++ (w ++ (gapped ps ++ b')) ++ rest := by simp [hs]
  rw [hs', firstLine_append hline hrest, afterLine_append hline hrest, words_eq_cons_iff]
  exact ⟨rfl, b, ps, b', rfl, hb, hw.mono fun _ => his.isWord, hps.mono fun _ => his'.isWord,
    hb', rfl⟩

/-- A text whose first line has given words is a layout of them. -/
theorem exists_of_words_firstLine (h : words (firstLine s) = w :: ws) :
    ∃ b ps b', s = b ++ (w ++ (gapped ps ++ (b' ++ afterLine s))) ∧ IsBlankLine b ∧
      IsLayout (!isBlank ·) ps ∧ IsBlankLine b' ∧ ws = ps.map Prod.snd := by
  obtain ⟨b, ps, b', hline, hb, -, hps, hb', rfl⟩ := words_eq_cons_iff.1 h
  refine ⟨b, ps, b', ?_, hb, hps, hb', rfl⟩
  have hs := firstLine_append_afterLine s
  rw [hline] at hs
  simpa using hs.symm

/-- A layout of words of a class is a layout of the class. -/
theorem IsLayout.of_forall (hps : IsLayout (!isBlank ·) ps)
    (h : ∀ w ∈ ps.map Prod.snd, IsRun is w) :
    IsLayout is ps :=
  fun q hq => ⟨(hps q hq).1, h _ (List.mem_map_of_mem hq)⟩

end Lines

end SceneText
