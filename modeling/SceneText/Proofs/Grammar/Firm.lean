import SceneText.Proofs.Grammar.Tokens

/-!
# Proofs/Grammar/Firm — matches that depend on one character behind them

What is behind a match can be exchanged: if the new text is empty or begins with the same character
(`BeginsAs`), the scene grammar's patterns match as before (`Firm`).  Repetitions are firm where the
failure of a further turn shows in the first character (`Quits`).
-/

namespace SceneText

variable {s t t' : List Char} {p q : Pattern} {r : Rule}

/-! ## The first character -/

/-- A text is over, or its first character is that of another. -/
def BeginsAs (t' t : List Char) : Prop := ∀ c ∈ t'.head?, c ∈ t.head?

@[simp] theorem beginsAs_nil (t : List Char) : BeginsAs [] t := by simp [BeginsAs]

/-- What stands before two texts does not part them. -/
theorem BeginsAs.append (h : BeginsAs t' t) (w : List Char) : BeginsAs (w ++ t') (w ++ t) := by
  cases w with
  | nil => exact h
  | cons c w => exact fun _ h => h

theorem beginsAs_append_of_ne_nil (hs : s ≠ []) (t' t : List Char) :
    BeginsAs (s ++ t') (s ++ t) := by
  cases s with
  | nil => exact absurd rfl hs
  | cons c s => exact fun _ h => h

theorem BeginsAs.stops {is : Char → Bool} (h : BeginsAs t' t) (ht : Stops is t) : Stops is t' :=
  fun c hc => ht c (h c hc)

theorem BeginsAs.dropLineEnd? {brk : List Char} (h : BeginsAs t' t)
    (hdrop : dropLineEnd? (brk ++ t) = some t) : SceneText.dropLineEnd? (brk ++ t') = some t' := by
  obtain ⟨brk', hbrk, hcases⟩ := dropLineEnd?_eq_some_iff.1 hdrop
  obtain rfl := List.append_cancel_right hbrk
  refine dropLineEnd?_eq_some_iff.2 ⟨brk, rfl, hcases.imp_right (Or.imp_right ?_)⟩
  exact fun ⟨hr, ht⟩ => ⟨hr, fun ht' => ht (h _ ht')⟩

/-- A line end stays one in front of anything but a line feed. -/
theorem dropLineEnd?_exchange {brk : List Char} (h : dropLineEnd? (brk ++ t) = some t)
    (ht' : t'.head? ≠ some '\n') : dropLineEnd? (brk ++ t') = some t' := by
  obtain ⟨brk', hbrk, hcases⟩ := dropLineEnd?_eq_some_iff.1 h
  obtain rfl := List.append_cancel_right hbrk
  exact dropLineEnd?_eq_some_iff.2 ⟨brk, rfl, hcases.imp_right (Or.imp_right fun h => ⟨h.1, ht'⟩)⟩

namespace Pattern

/-! ## Firm matches -/

/-- **A match stays one** when the text behind it is exchanged for one that begins alike. -/
def Firm (p : Pattern) : Prop :=
  ∀ ⦃s f t t'⦄, p.parse s = some (f, t) → BeginsAs t' t → p.parse (f.toList ++ t') = some (f, t')

/-- A pattern that fails does so by the first character. -/
def Quits (p : Pattern) : Prop :=
  ∀ ⦃t t'⦄, p.parse t = none → BeginsAs t' t → p.parse t' = none

theorem firm_char (is : Char → Bool) : (char is).Firm := by
  intro s f t t' h _
  obtain ⟨c, hc, -, rfl⟩ := parse_char_iff.1 h
  exact parse_char_iff.2 ⟨c, hc, rfl, rfl⟩

theorem quits_char (is : Char → Bool) : (char is).Quits := fun _ _ h ht =>
  parse_char_eq_none_iff.2 (ht.stops (parse_char_eq_none_iff.1 h))

theorem firm_word (w : List Char) : (word w).Firm := by
  intro s f t t' h _
  obtain ⟨-, rfl⟩ := parse_word_iff.1 h
  exact parse_word_iff.2 ⟨by simp [Forest.toList], rfl⟩

theorem Firm.append (hp : p.Firm) (hq : q.Firm) : (p ++ q).Firm := by
  intro s f t t' h ht
  obtain ⟨f₁, mid, f₂, h₁, h₂, rfl⟩ := parse_append_iff.1 h
  have hmid := ht.append f₂.toList
  rw [toList_parse h₂] at hmid
  refine parse_append_iff.2 ⟨f₁, f₂.toList ++ t', f₂, ?_, hq h₂ ht, rfl⟩
  rw [Forest.toList_append, List.append_assoc]
  exact hp h₁ hmid

theorem Firm.rule (hp : p.Firm) : (rule r p).Firm := by
  intro s f t t' h ht
  obtain ⟨g, hg, rfl⟩ := parse_rule_iff.1 h
  refine parse_rule_iff.2 ⟨g, ?_, rfl⟩
  simpa [Forest.toList] using hp hg ht

theorem Quits.rule (hp : p.Quits) : (rule r p).Quits := fun _ _ h ht =>
  parse_rule_eq_none_iff.2 (hp (parse_rule_eq_none_iff.1 h) ht)

/-- Turns up to where the first character stops them. -/
theorem Firm.many (hp : p.Firm) (hquits : p.Quits) (hproductive : p.productive) :
    (many p).Firm := by
  intro s f t t' h ht
  have hturns := (parse_many_iff hproductive).1 h
  refine (parse_many_iff hproductive).2 ?_
  clear h
  induction hturns with
  | stop hnone => exact .stop (hquits hnone ht)
  | @step s mid t f g hstep hmore ih =>
    have hmid := ht.append g.toList
    have hsplit := toList_parse ((parse_many_iff hproductive).2 hmore)
    rw [hsplit] at hmid
    rw [Forest.toList_append, List.append_assoc]
    exact .step (hp hstep hmid) (ih ht)

/-! ## Tokens -/

theorem firm_newline : newline.Firm := by
  intro s f t t' h ht
  obtain ⟨brk, hdrop, rfl, rfl⟩ := parse_newline_iff.1 h
  rw [Forest.toList, Forest.toList, List.append_nil]
  exact parse_newline_iff.2 ⟨brk, ht.dropLineEnd? hdrop, rfl, rfl⟩

theorem quits_newline : newline.Quits := by
  intro t t' h ht
  have hstop := dropLineEnd?_eq_none_iff.1 (parse_newline_eq_none_iff.1 h)
  exact parse_newline_eq_none_iff.2 (dropLineEnd?_eq_none_iff.2 (ht.stops hstop))

theorem firm_lineEnd : lineEnd.Firm := firm_newline.rule

theorem quits_lineEnd : lineEnd.Quits := quits_newline.rule

theorem firm_lineEnds : (oneOrMore lineEnd).Firm :=
  firm_lineEnd.append (firm_lineEnd.many quits_lineEnd rfl)

theorem firm_blanks : blanks.Firm := (firm_char _).many (quits_char _) rfl

theorem firm_gap : gap.Firm := (firm_char _).append firm_blanks

/-- A run of characters of a class. -/
theorem firm_token (r : Rule) (is : Char → Bool) : (token r is).Firm :=
  ((firm_char is).append ((firm_char is).many (quits_char is) rfl)).rule

/-- Spacing before something else. -/
theorem firm_spacing : (many (blank <|> newline)).Firm := by
  refine Firm.many ?_ ?_ rfl
  · intro s f t t' h ht
    rcases parse_orElse_iff.1 h with h | ⟨hnone, h⟩
    · exact parse_orElse_iff.2 (.inl (firm_char _ h ht))
    · refine parse_orElse_iff.2 (.inr ⟨?_, firm_newline h ht⟩)
      -- a line end begins with no blank
      obtain ⟨brk, hdrop, rfl, rfl⟩ := parse_newline_iff.1 h
      have hstop := (atLineEnd_of_dropLineEnd? (ht.dropLineEnd? hdrop)).stops isBlank_of_isLineBreak
      exact parse_char_eq_none_iff.2 (by simpa [Forest.toList] using hstop)
  · intro t t' h ht
    obtain ⟨hblank, hnewline⟩ := parse_orElse_eq_none_iff.1 h
    exact parse_orElse_eq_none_iff.2 ⟨quits_char _ hblank ht, quits_newline hnewline ht⟩

end Pattern

end SceneText
