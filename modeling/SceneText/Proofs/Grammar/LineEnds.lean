import SceneText.Proofs.Grammar.Tokens
import SceneText.Proofs.Text.LineFeeds

/-!
# Proofs/Grammar/LineEnds — patterns that treat all line ends alike

A pattern is `Fair` if it takes line ends whole and looks at a line break only to see where a line
ends.  Such a pattern matches a text and the same text with line feeds alike
(`Fair.parse_lineFeeds`), cuts no line end (`Fair.whole_of_parse`), and fails at places that
correspond, for the same rules (`Fair.searchesAlike`).  Every rule of the scene grammar is fair
(`Rule.fair`).
-/

namespace SceneText

variable {s rest after source : List Char} {f g : Forest}

namespace Forest

/-- The record with every line end a line feed. -/
def lineFeeds : Forest → Forest
  | nil => nil
  | text stretch next => text (SceneText.lineFeeds stretch) next.lineFeeds
  | node rule inner next => node rule inner.lineFeeds next.lineFeeds

/-- No line end is cut in two between the stretches of a record, nor before what follows it. -/
def Whole : Forest → List Char → Prop
  | nil, _ => True
  | text stretch next, after => Seam stretch (next.toList ++ after) ∧ next.Whole after
  | node _ inner next, after => inner.Whole (next.toList ++ after) ∧ next.Whole after

@[simp] theorem lineFeeds_nil : lineFeeds nil = nil := rfl

@[simp] theorem lineFeeds_append (f g : Forest) :
    (f ++ g).lineFeeds = f.lineFeeds ++ g.lineFeeds := by
  induction f with
  | nil => rfl
  | text s f ih => rw [text_append, lineFeeds, ih, lineFeeds, text_append]
  | node r i f _ ih => rw [node_append, lineFeeds, ih, lineFeeds, node_append]

theorem Whole.append (hf : f.Whole (g.toList ++ after)) (hg : g.Whole after) :
    (f ++ g).Whole after := by
  induction f with
  | nil => exact hg
  | text s f ih =>
    have htext : (f ++ g).toList ++ after = f.toList ++ (g.toList ++ after) := by simp
    exact ⟨htext ▸ hf.1, ih hf.2⟩
  | node r i f _ ih =>
    have htext : (f ++ g).toList ++ after = f.toList ++ (g.toList ++ after) := by simp
    exact ⟨htext ▸ hf.1, ih hf.2⟩

theorem Whole.seam (h : f.Whole after) : Seam f.toList after := by
  induction f generalizing after with
  | nil => exact seam_nil_left after
  | text s f ih => exact (ih h.2).append_left h.1
  | node r i f ihi ih => exact (ih h.2).append_left (ihi h.1)

/-- **The text of a record with line feeds is the text with line feeds.** -/
theorem Whole.toList_lineFeeds (h : f.Whole after) :
    f.lineFeeds.toList = SceneText.lineFeeds f.toList := by
  induction f generalizing after with
  | nil => rfl
  | text s f ih =>
    rw [lineFeeds, Forest.toList, Forest.toList, ih h.2, SceneText.lineFeeds_append h.1.left]
  | node r i f ihi ih =>
    rw [lineFeeds, Forest.toList, Forest.toList, ihi h.1, ih h.2,
      SceneText.lineFeeds_append h.1.seam.left]

end Forest

namespace Pattern

variable {p q : Pattern} {is : Char → Bool} {w : List Char} {r : Rule}

/-! ## Fair patterns -/

/-- **A pattern that treats all line ends alike**: only where it matches a whole line end, or makes
sure that there is none, does it look at line breaks. -/
inductive Fair : Pattern → Prop
  | char {is : Char → Bool} : (∀ c, isLineBreak c → is c = false) → Fair (char is)
  | word {w : List Char} : (∀ c ∈ w, isLineBreak c = false) → Fair (word w)
  | atEnd : Fair atEnd
  | newline : Fair newline
  | inLine : Fair (absent newline ++ .char fun _ => true)
  | seq {p q : Pattern} : Fair p → Fair q → Fair (p ++ q)
  | alt {p q : Pattern} : Fair p → Fair q → Fair (p <|> q)
  | opt {p : Pattern} : Fair p → Fair (opt p)
  | many {p : Pattern} : Fair p → p.productive → Fair (many p)
  | ahead {p : Pattern} : Fair p → Fair (ahead p)
  | absent {p : Pattern} : Fair p → Fair (absent p)
  | rule {r : Rule} {p : Pattern} : Fair p → Fair (rule r p)

/-- **A fair pattern cuts no line end in two.** -/
theorem Fair.whole_of_parse (hp : Fair p) (h : p.parse s = some (f, rest)) : f.Whole rest := by
  induction hp generalizing s f rest with
  | char his =>
    obtain ⟨c, hc, rfl, rfl⟩ := parse_char_iff.1 h
    refine ⟨seam_of_forall (List.forall_mem_singleton.2 ?_) _, trivial⟩
    by_contra hbreak
    rw [his c (by simpa using hbreak)] at hc
    cases hc
  | word hw =>
    obtain ⟨rfl, rfl⟩ := parse_word_iff.1 h
    exact ⟨seam_of_forall hw _, trivial⟩
  | atEnd =>
    obtain ⟨rfl, rfl, rfl⟩ := parse_atEnd_iff.1 h
    trivial
  | newline =>
    obtain ⟨brk, hdrop, rfl, rfl⟩ := parse_newline_iff.1 h
    exact ⟨seam_of_dropLineEnd? hdrop, trivial⟩
  | inLine =>
    obtain ⟨c, hc, rfl, rfl⟩ := parse_inLine_iff.1 h
    exact ⟨seam_of_forall (List.forall_mem_singleton.2 (by simpa using hc)) _, trivial⟩
  | seq _ _ ihp ihq =>
    obtain ⟨f₁, mid, f₂, h₁, h₂, rfl⟩ := parse_append_iff.1 h
    refine Forest.Whole.append ?_ (ihq h₂)
    rw [toList_parse h₂]
    exact ihp h₁
  | alt _ _ ihp ihq =>
    rcases parse_orElse_iff.1 h with h | ⟨-, h⟩
    · exact ihp h
    · exact ihq h
  | opt _ ih =>
    rcases parse_opt_iff.1 h with h | ⟨-, rfl, -⟩
    · exact ih h
    · trivial
  | many _ hproductive ih =>
    have hturns := (parse_many_iff hproductive).1 h
    clear h
    induction hturns with
    | stop => trivial
    | @step _ _ _ _ g hstep hmore ih' =>
      refine Forest.Whole.append ?_ ih'
      rw [toList_parse ((parse_many_iff hproductive).2 hmore)]
      exact ih hstep
  | ahead =>
    obtain ⟨-, rfl, -⟩ := parse_ahead_iff.1 h
    trivial
  | absent =>
    obtain ⟨-, rfl, -⟩ := parse_absent_iff.1 h
    trivial
  | rule _ ih =>
    obtain ⟨g, hg, rfl⟩ := parse_rule_iff.1 h
    exact ⟨ih hg, trivial⟩

/-- The match in the text with line feeds. -/
def feedMatch (m : Match) : Match := (m.1.lineFeeds, lineFeeds m.2)

/-- A pattern matches both texts alike if it does where it matches and where it does not. -/
theorem parse_lineFeeds_of
    (hsome : ∀ f rest, p.parse s = some (f, rest) →
      p.parse (lineFeeds s) = some (f.lineFeeds, lineFeeds rest))
    (hnone : p.parse s = none → p.parse (lineFeeds s) = none) :
    p.parse (lineFeeds s) = (p.parse s).map feedMatch := by
  cases h : p.parse s with
  | none => exact hnone h
  | some m => exact hsome m.1 m.2 h

/-- One character of a class without line breaks is taken from both texts. -/
theorem parse_lineFeeds_of_char (his : ∀ c, isLineBreak c → is c = false)
    (hp : ∀ {s f rest}, p.parse s = some (f, rest) ↔ ∃ c, is c ∧ s = c :: rest ∧ f = .text [c] .nil)
    (s : List Char) : p.parse (lineFeeds s) = (p.parse s).map feedMatch := by
  have hline {c : Char} (hc : is c) : isLineBreak c = false := by
    by_contra hbreak
    rw [his c (by simpa using hbreak)] at hc
    cases hc
  refine parse_lineFeeds_of (fun f rest h => ?_) fun h => ?_
  · obtain ⟨c, hc, rfl, rfl⟩ := hp.1 h
    refine hp.2 ⟨c, hc, lineFeeds_cons (hline hc) rest, ?_⟩
    rw [Forest.lineFeeds, lineFeeds_of_forall (List.forall_mem_singleton.2 (hline hc))]
    rfl
  · refine Option.eq_none_iff_forall_ne_some.2 fun ⟨f, rest⟩ hparse => ?_
    obtain ⟨c, hc, hs, -⟩ := hp.1 hparse
    obtain ⟨rest', rfl, -⟩ := (@lineFeeds_eq_append_iff s rest [c]
      (List.forall_mem_singleton.2 (hline hc))).1 hs
    exact absurd (h.symm.trans (hp.2 ⟨c, hc, rfl, rfl⟩)) (by simp)

theorem parse_word_lineFeeds (hw : ∀ c ∈ w, isLineBreak c = false) (s : List Char) :
    (word w).parse (lineFeeds s) = ((word w).parse s).map feedMatch := by
  refine parse_lineFeeds_of (fun f rest h => ?_) fun h => ?_
  · obtain ⟨rfl, rfl⟩ := parse_word_iff.1 h
    refine parse_word_iff.2 ⟨(lineFeeds_eq_append_iff hw).2 ⟨rest, rfl, rfl⟩, ?_⟩
    rw [Forest.lineFeeds, lineFeeds_of_forall hw]
    rfl
  · refine parse_word_eq_none_iff.2 fun ⟨t, ht⟩ => parse_word_eq_none_iff.1 h ?_
    obtain ⟨rest, rfl, -⟩ := (lineFeeds_eq_append_iff hw).1 ht.symm
    exact List.prefix_append w rest

theorem parse_atEnd_lineFeeds (s : List Char) :
    atEnd.parse (lineFeeds s) = (atEnd.parse s).map feedMatch := by
  refine parse_lineFeeds_of (fun f rest h => ?_) fun h => ?_
  · obtain ⟨rfl, rfl, rfl⟩ := parse_atEnd_iff.1 h
    rfl
  · cases s with
    | nil => cases h
    | cons c s => simp [parse, lineFeeds_ne_nil (List.cons_ne_nil c s)]

/-- A line end is taken whole from both texts. -/
theorem parse_newline_lineFeeds (s : List Char) :
    newline.parse (lineFeeds s) = (newline.parse s).map feedMatch := by
  refine parse_lineFeeds_of (fun f rest h => ?_) fun h => ?_
  · obtain ⟨brk, hdrop, rfl, rfl⟩ := parse_newline_iff.1 h
    have hfeed := lineFeeds_of_dropLineEnd? hdrop
    refine parse_newline_iff.2 ⟨['\n'], by rw [hfeed]; rfl, hfeed, ?_⟩
    obtain ⟨brk', hbrk, hcases⟩ := dropLineEnd?_eq_some_iff.1 hdrop
    obtain rfl := List.append_cancel_right hbrk
    rcases hcases with rfl | rfl | ⟨rfl, -⟩ <;> rfl
  · rw [parse_newline_eq_none_iff] at h ⊢
    rw [dropLineEnd?_lineFeeds, h, Option.map_none]

/-- A pattern that matches both texts alike is repeated as often in both. -/
theorem Repeats.lineFeeds (hp : ∀ s, p.parse (lineFeeds s) = (p.parse s).map feedMatch)
    (h : Repeats p s f rest) : Repeats p (lineFeeds s) f.lineFeeds (lineFeeds rest) := by
  induction h with
  | stop hnone => exact .stop (by rw [hp, hnone, Option.map_none])
  | step hstep _ ih =>
    rw [Forest.lineFeeds_append]
    exact .step (by rw [hp, hstep]; rfl) ih

/-- **A fair pattern matches a text with line feeds as it matches the text.** -/
theorem Fair.parse_lineFeeds (hp : Fair p) (s : List Char) :
    p.parse (lineFeeds s) = (p.parse s).map feedMatch := by
  induction hp generalizing s with
  | char his => exact parse_lineFeeds_of_char his parse_char_iff s
  | word hw => exact parse_word_lineFeeds hw s
  | atEnd => exact parse_atEnd_lineFeeds s
  | newline => exact parse_newline_lineFeeds s
  | inLine => exact parse_lineFeeds_of_char (fun c hc => by simp [hc]) parse_inLine_iff s
  | @seq p q _ _ ihp ihq =>
    change (Pattern.seq p q).parse _ = ((Pattern.seq p q).parse s).map _
    rw [parse, parse, ihp]
    cases p.parse s with
    | none => rfl
    | some m =>
      simp only [Option.map_some, feedMatch, ihq]
      cases q.parse m.2 <;> simp [feedMatch]
  | @alt p q _ _ ihp ihq =>
    change (Pattern.alt p q).parse _ = ((Pattern.alt p q).parse s).map _
    rw [parse, parse, ihp, ihq]
    cases p.parse s <;> rfl
  | @opt p _ ih =>
    rw [parse, parse, ih]
    cases p.parse s <;> rfl
  | @many p _ hproductive ih =>
    obtain ⟨f, rest, h⟩ := exists_parse_many p s
    rw [h]
    exact (parse_many_iff hproductive).2 (Repeats.lineFeeds ih ((parse_many_iff hproductive).1 h))
  | @ahead p _ ih =>
    rw [parse, parse, ih]
    cases p.parse s <;> rfl
  | @absent p _ ih =>
    rw [parse, parse, ih]
    cases p.parse s <;> rfl
  | @rule r p _ ih =>
    rw [parse, parse, ih]
    cases p.parse s <;> rfl

end Pattern

/-! ## Failures -/

namespace Furthest

variable {r : Rule} {before far : Furthest}

/-- The place of a failure in the text with line feeds. -/
def lineFeeds (far : Furthest) : Furthest := ⟨SceneText.lineFeeds far.rest, far.rules⟩

theorem countAt_lineFeeds (hs : Cut source s) (hfar : Cut source far.rest) :
    far.lineFeeds.countAt (SceneText.lineFeeds s) = far.countAt s := by
  simp only [countAt, lineFeeds, hs.length_eq_iff hfar]

/-- **A failure is recorded alike**, as places are in the same order in both texts. -/
theorem fail_lineFeeds (hs : Cut source s) (hbefore : Cut source before.rest)
    (hfar : Cut source far.rest) :
    fail r (SceneText.lineFeeds s) before.lineFeeds far.lineFeeds =
      (fail r s before far).lineFeeds := by
  simp only [fail, countAt_lineFeeds hs hbefore, countAt_lineFeeds hs hfar]
  simp only [lineFeeds, hs.length_eq_iff hfar, hs.length_lt_iff hfar]
  split
  · rfl
  · split
    · rfl
    · split <;> rfl

theorem cut_fail (hs : Cut source s) (hfar : Cut source far.rest) :
    Cut source (fail r s before far).rest := by
  unfold fail
  split
  · exact hfar
  · split
    · exact hfar
    · split
      · exact hs
      · exact hfar

end Furthest

namespace Pattern

variable {p : Pattern} {far : Furthest}

/-- A fair pattern leaves a place that cuts no line end. -/
theorem Fair.cut_of_parse (hp : Fair p) (hs : Cut source s) (h : p.parse s = some (f, rest)) :
    Cut source rest := by
  have hseam := (hp.whole_of_parse h).seam
  rw [← toList_parse h] at hs
  exact hs.append hseam

/-- A place recorded cuts no line end, and corresponds to the one recorded in the text with line
feeds. -/
def SearchesAlike (p : Pattern) : Prop := ∀ {source s : List Char} {far : Furthest},
  Cut source s → Cut source far.rest →
    Cut source (p.search s far).rest ∧
      p.search (lineFeeds s) far.lineFeeds = (p.search s far).lineFeeds

section Turns

variable {step : List Char → Option Match} {search : List Char → Furthest → Furthest}
  {turns mid : List Char}

theorem searchUpTo_of_none (h : step s = none) :
    searchUpTo step search turns s far = search s far := by
  cases turns with
  | nil => rfl
  | cons c turns => rw [searchUpTo, h]

theorem searchUpTo_of_some (h : step s = some (f, mid)) (c : Char) :
    searchUpTo step search (c :: turns) s far =
      searchUpTo step search turns mid (search s far) := by
  rw [searchUpTo, h]

end Turns

/-- Turns of a repetition record alike, with enough of them in both texts. -/
theorem Fair.searchUpTo_lineFeeds (hp : Fair p) (hproductive : p.productive)
    (ih : SearchesAlike p) {turns turns' : List Char} (hs : Cut source s)
    (hfar : Cut source far.rest) (hturns : s.length ≤ turns.length)
    (hturns' : (lineFeeds s).length ≤ turns'.length) :
    Cut source (searchUpTo p.parse p.search turns s far).rest ∧
      searchUpTo p.parse p.search turns' (lineFeeds s) far.lineFeeds =
        (searchUpTo p.parse p.search turns s far).lineFeeds := by
  induction turns generalizing turns' s far with
  | nil =>
    have hnone : p.parse s = none := by
      refine Option.eq_none_iff_forall_ne_some.2 fun ⟨f, rest⟩ h => ?_
      exact absurd (hturns.trans_lt' (length_lt_of_productive hproductive h)) (Nat.not_lt_zero _)
    have hnone' : p.parse (lineFeeds s) = none := by rw [hp.parse_lineFeeds, hnone, Option.map_none]
    rw [searchUpTo_of_none hnone, searchUpTo_of_none hnone']
    exact ih hs hfar
  | cons c turns ih' =>
    have hparse := hp.parse_lineFeeds s
    cases h : p.parse s with
    | none =>
      rw [h, Option.map_none] at hparse
      rw [searchUpTo_of_none h, searchUpTo_of_none hparse]
      exact ih hs hfar
    | some m =>
      obtain ⟨f, mid⟩ := m
      rw [h] at hparse
      have hparse' : p.parse (lineFeeds s) = some (f.lineFeeds, lineFeeds mid) := hparse
      have hlt := length_lt_of_productive hproductive h
      have hlt' := length_lt_of_productive hproductive hparse'
      obtain ⟨c', turns', rfl⟩ := List.exists_cons_of_length_pos (hlt'.trans_le hturns').bot_lt
      rw [List.length_cons] at hturns hturns'
      obtain ⟨hcut, hsearch⟩ := ih hs hfar
      rw [searchUpTo_of_some h, searchUpTo_of_some hparse', hsearch]
      exact ih' (hp.cut_of_parse hs h) hcut (by omega) (by omega)

theorem search_newline (s : List Char) (far : Furthest) : newline.search s far = far := by
  change (alt (Pattern.text "\n") (alt (Pattern.text "\r\n") (Pattern.text "\r"))).search s far =
    far
  simp only [search, Pattern.text]
  split
  · split <;> rfl
  · rfl

/-- **A fair pattern fails at places that correspond.** -/
theorem Fair.searchesAlike (hp : Fair p) : SearchesAlike p := by
  intro source s far hs hfar
  induction hp generalizing source s far with
  | char => exact ⟨hfar, rfl⟩
  | word => exact ⟨hfar, rfl⟩
  | atEnd => exact ⟨hfar, rfl⟩
  | newline =>
    rw [search_newline, search_newline]
    exact ⟨hfar, rfl⟩
  | inLine =>
    have hsearch (s : List Char) (far : Furthest) :
        (Pattern.seq (Pattern.absent Pattern.newline) (Pattern.char fun _ => true)).search s far =
          far := by
      simp only [search]
      split <;> rfl
    exact ⟨(hsearch s far).symm ▸ hfar, (hsearch _ _).trans (congrArg _ (hsearch s far).symm)⟩
  | @seq p q hp _ ihp ihq =>
    change Cut source ((Pattern.seq p q).search s far).rest ∧
      (Pattern.seq p q).search _ _ = ((Pattern.seq p q).search s far).lineFeeds
    obtain ⟨hcut, hsearch⟩ := ihp hs hfar
    rw [search, search, hp.parse_lineFeeds, hsearch]
    cases h : p.parse s with
    | none => exact ⟨hcut, rfl⟩
    | some m => exact ihq (hp.cut_of_parse hs h) hcut
  | @alt p q hp _ ihp ihq =>
    change Cut source ((Pattern.alt p q).search s far).rest ∧
      (Pattern.alt p q).search _ _ = ((Pattern.alt p q).search s far).lineFeeds
    obtain ⟨hcut, hsearch⟩ := ihp hs hfar
    rw [search, search, hp.parse_lineFeeds, hsearch]
    cases p.parse s with
    | none => exact ihq hs hcut
    | some m => exact ⟨hcut, rfl⟩
  | opt _ ih => exact ih hs hfar
  | many hp hproductive ih =>
    exact hp.searchUpTo_lineFeeds hproductive ih hs hfar le_rfl le_rfl
  | ahead _ ih => exact ih hs hfar
  | absent => exact ⟨hfar, rfl⟩
  | @rule r p hp ih =>
    obtain ⟨hcut, hsearch⟩ := ih hs hfar
    rw [search, search, hp.parse_lineFeeds, hsearch]
    cases p.parse s with
    | none => exact ⟨Furthest.cut_fail hs hcut, Furthest.fail_lineFeeds hs hfar hcut⟩
    | some m => exact ⟨hcut, rfl⟩

/-! ## The scene grammar -/

theorem fair_blank : Fair blank := .char isBlank_of_isLineBreak

theorem fair_blanks : Fair blanks := .many fair_blank rfl

theorem fair_gap : Fair gap := .seq fair_blank fair_blanks

theorem fair_lineEnd : Fair lineEnd := .rule .newline

theorem fair_lineEnds : Fair (oneOrMore lineEnd) := .seq fair_lineEnd (.many fair_lineEnd rfl)

theorem fair_spacing : Fair (many (blank <|> newline)) := .many (.alt fair_blank .newline) rfl

/-- A literal on one line is fair. -/
theorem fair_text {w : String} (hw : w.toList.all (!isLineBreak ·)) : Fair (Pattern.text w) :=
  .word (forall_eq_false_of_all hw)

theorem fair_token (his : InWords is) : Fair (token r is) := by
  have hchar : Fair (char is) := .char fun c hc => by
    by_contra h
    rw [(his c (by simpa using h)).2] at hc
    cases hc
  exact .rule (.seq hchar (.many hchar rfl))

theorem fair_number : Fair number := fair_token inWords_isNumberChar

theorem fair_point : Fair point :=
  .rule (.seq (.seq (.seq (.seq fair_blanks fair_number) fair_gap) fair_number) fair_blanks)

theorem fair_name : Fair name := .rule (.many .inLine rfl)

theorem fair_comment : Fair comment := .rule (.alt (.seq fair_gap fair_name) (.absent fair_blank))

theorem fair_rotate : Fair rotate := .rule (.seq (.seq (fair_text rfl) fair_gap) fair_number)

theorem fair_scale : Fair scale :=
  .rule (.seq (.seq (.seq (.seq (fair_text rfl) fair_gap) fair_number) fair_gap) fair_number)

theorem fair_translate : Fair translate :=
  .rule (.seq (.seq (.seq (.seq (fair_text rfl) fair_gap) fair_number) fair_gap) fair_number)

theorem fair_transform : Fair transform :=
  .rule (.seq (.seq fair_blanks (.alt fair_rotate (.alt fair_scale fair_translate))) fair_blanks)

/-- A list of what is fair is fair, if what separates it is. -/
theorem fair_items {sep : Pattern} (hp : Fair p) (hsep : Fair sep)
    (hproductive : (sep ++ p).productive) : Fair (p ++ many (sep ++ p)) :=
  .seq hp (.many (.seq hsep hp) hproductive)

theorem fair_transforms : Fair transforms := .rule (fair_items fair_transform fair_lineEnd rfl)

theorem fair_trailingTransforms : Fair trailingTransforms :=
  .rule (.opt (.seq (.seq (.ahead (.seq fair_lineEnd fair_transform)) fair_lineEnd)
    fair_transforms))

theorem fair_drawStyle : Fair drawStyle :=
  .rule (.seq (.seq (.seq (.seq fair_blanks (fair_token inWords_isAlpha)) fair_gap)
    (fair_token inWords_isAlpha)) fair_blanks)

theorem fair_kinds : Fair (unitSquare <|> unitCircle) :=
  .alt (.rule (fair_text rfl)) (.rule (fair_text rfl))

theorem fair_shape : Fair shape :=
  .rule (.seq (.seq (.seq (.seq (.seq fair_blanks fair_kinds) fair_comment) fair_lineEnd)
    fair_drawStyle) fair_trailingTransforms)

theorem fair_shapes : Fair shapes := .rule (fair_items fair_shape fair_lineEnds rfl)

theorem fair_group : Fair group :=
  .rule (.seq (.seq (.seq (.seq fair_spacing (fair_text rfl)) fair_comment) fair_trailingTransforms)
    (.opt (.seq fair_lineEnds fair_shapes)))

theorem fair_groupSeparator : Fair groupSeparator := .seq fair_lineEnd fair_lineEnds

theorem fair_document : Fair document :=
  .rule (.seq (.seq (.opt (fair_items fair_group fair_groupSeparator rfl)) fair_spacing)
    (.rule .atEnd))

end Pattern

open Pattern in
/-- **All rules of the scene grammar treat all line ends alike.** -/
theorem Rule.fair (r : Rule) : r.pattern.Fair := by
  cases r with
  | endOfText => exact .rule .atEnd
  | blank => exact fair_blank
  | lineEnd => exact fair_lineEnd
  | number => exact fair_number
  | point => exact fair_point
  | points => exact .rule (fair_items fair_point fair_lineEnd rfl)
  | name => exact fair_name
  | comment => exact fair_comment
  | rotate => exact fair_rotate
  | scale => exact fair_scale
  | translate => exact fair_translate
  | transform => exact fair_transform
  | transforms => exact fair_transforms
  | trailingTransforms => exact fair_trailingTransforms
  | styleName => exact fair_token inWords_isAlpha
  | colorName => exact fair_token inWords_isAlpha
  | drawStyle => exact fair_drawStyle
  | unitSquare => exact .rule (fair_text rfl)
  | unitCircle => exact .rule (fair_text rfl)
  | shape => exact fair_shape
  | shapes => exact fair_shapes
  | group => exact fair_group
  | groupSeparator => exact fair_groupSeparator
  | document => exact fair_document

end SceneText
