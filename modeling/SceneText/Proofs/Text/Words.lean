import SceneText.Proofs.Text.Lines

/-!
# Proofs/Text/Words — the words of a line

A line is blanks and words in turn.  Its words are read off its front: blanks there do not count
(`words_blanks_append`), and a run of other characters up to a blank or the end is a word
(`words_append`).  Conversely a line with a word at its front falls apart that way
(`exists_eq_of_words_eq_cons`).
-/

namespace SceneText

variable {l b w t : List Char} {ws : List (List Char)} {ps : List (List Char × List Char)}

/-- The words of a line: what stands between its blanks. -/
def words (l : List Char) : List (List Char) := (l.splitOnP isBlank).filter (· ≠ [])

/-- A run of characters that are no blanks. -/
abbrev IsWord (w : List Char) : Prop := IsRun (!isBlank ·) w

@[simp] theorem words_nil : words [] = [] := by simp [words]

theorem words_blanks_append (hb : IsBlankLine b) (l : List Char) : words (b ++ l) = words l := by
  induction b with
  | nil => rfl
  | cons c b ih =>
    obtain ⟨hc, hb⟩ := List.forall_mem_cons.1 hb
    rw [← ih hb, words, List.cons_append, List.splitOnP_cons_eq_if_modifyHead, if_pos hc,
      List.filter_cons_of_neg (by simp), words]

@[simp] theorem words_of_isBlankLine (hb : IsBlankLine b) : words b = [] := by
  simpa using words_blanks_append hb []

/-- **A run up to a blank or the end of the line is a word.** -/
theorem words_append (hw : IsWord w) (hl : Stops (!isBlank ·) l) :
    words (w ++ l) = w :: words l := by
  have hblank : ∀ c ∈ w, isBlank c = false := fun c hc => by simpa using hw.2 c hc
  cases l with
  | nil =>
    rw [words, List.append_nil, List.splitOnP_eq_singleton hblank,
      List.filter_cons_of_pos (by simpa using hw.1)]
    rfl
  | cons c l =>
    have hc : isBlank c := by simpa using hl
    have hskip : words ([c] ++ l) = words l :=
      words_blanks_append (List.forall_mem_cons.2 ⟨hc, by simp⟩) l
    rw [List.singleton_append] at hskip
    rw [words, List.splitOnP_append_cons_of_forall_mem hblank c hc,
      List.filter_cons_of_pos (by simpa using hw.1), ← words, hskip]

/-- **A gap parts the words before it from those after it.** -/
theorem words_append_gap {gap : List Char} (hgap : IsRun isBlank gap) (l l' : List Char) :
    words (l ++ (gap ++ l')) = words l ++ words l' := by
  obtain ⟨c, gap, rfl⟩ := List.exists_cons_of_ne_nil hgap.1
  obtain ⟨hc, hblank⟩ := List.forall_mem_cons.1 hgap.2
  rw [words, List.cons_append, List.splitOnP_append_cons l (gap ++ l') hc, List.filter_append,
    ← words, ← words, words_blanks_append hblank]

theorem words_append_blanks (l : List Char) (hb : IsBlankLine b) : words (l ++ b) = words l := by
  by_cases hne : b = []
  · rw [hne, List.append_nil]
  · have h := words_append_gap ⟨hne, hb⟩ l []
    rwa [List.append_nil, words_nil, List.append_nil] at h

/-- A line is blank, or a word stands behind its first blanks. -/
theorem isBlankLine_or_exists_word (l : List Char) : IsBlankLine l ∨ ∃ b w l', IsBlankLine b ∧
    IsWord w ∧ Stops (!isBlank ·) l' ∧ l = b ++ (w ++ l') := by
  have hb : IsBlankLine (l.takeWhile isBlank) := fun c => of_mem_takeWhile
  have hsplit : l.takeWhile isBlank ++ l.dropWhile isBlank = l := List.takeWhile_append_dropWhile
  have hstop := stops_dropWhile isBlank l
  cases ht : l.dropWhile isBlank with
  | nil =>
    rw [ht, List.append_nil] at hsplit
    exact .inl (hsplit ▸ hb)
  | cons c t =>
    rw [ht] at hstop
    refine .inr ⟨_, (c :: t).takeWhile (!isBlank ·), (c :: t).dropWhile (!isBlank ·), hb,
      ⟨?_, fun d hd => of_mem_takeWhile hd⟩, stops_dropWhile _ _, ?_⟩
    · rw [List.takeWhile_cons_of_pos (by simpa using stops_cons.1 hstop)]
      simp
    · rw [List.takeWhile_append_dropWhile, ← ht, hsplit]

/-- **The first word of a line stands behind blanks**, and up to a blank or the end. -/
theorem exists_eq_of_words_eq_cons (h : words l = w :: ws) : ∃ b l', IsBlankLine b ∧ IsWord w ∧
    Stops (!isBlank ·) l' ∧ l = b ++ (w ++ l') ∧ words l' = ws := by
  obtain hblank | ⟨b, w', l', hb, hw, hl, rfl⟩ := isBlankLine_or_exists_word l
  · simp [words_of_isBlankLine hblank] at h
  · rw [words_blanks_append hb, words_append hw hl, List.cons.injEq] at h
    obtain ⟨rfl, rfl⟩ := h
    exact ⟨b, l', hb, hw, hl, rfl, rfl⟩

/-- A line without words is blank. -/
theorem isBlankLine_of_words_eq_nil (h : words l = []) : IsBlankLine l := by
  obtain hblank | ⟨b, w, l', hb, hw, hl, rfl⟩ := isBlankLine_or_exists_word l
  · exact hblank
  · simp [words_blanks_append hb, words_append hw hl] at h

/-! ## Lines laid out -/

/-- Gaps and words in turn. -/
def gapped (ps : List (List Char × List Char)) : List Char := ps.flatMap fun p => p.1 ++ p.2

@[simp] theorem gapped_nil : gapped [] = [] := rfl

@[simp] theorem gapped_cons (p : List Char × List Char) (ps : List (List Char × List Char)) :
    gapped (p :: ps) = p.1 ++ (p.2 ++ gapped ps) := by
  rw [gapped, List.flatMap_cons, List.append_assoc, gapped]

/-- Gaps hold blanks only, and words none. -/
def IsLayout (is : Char → Bool) (ps : List (List Char × List Char)) : Prop :=
  ∀ p ∈ ps, IsRun isBlank p.1 ∧ IsRun is p.2

/-- Behind a word, gaps and words in turn are a blank or nothing. -/
theorem stops_gapped {is : Char → Bool} (hps : IsLayout is ps) (ht : Stops (!isBlank ·) t) :
    Stops (!isBlank ·) (gapped ps ++ t) := by
  cases ps with
  | nil => exact ht
  | cons p ps =>
    rw [gapped_cons, List.append_assoc]
    exact (hps p List.mem_cons_self).1.stops (fun c hc => by simp [hc]) _

theorem IsBlankLine.stops (hb : IsBlankLine b) : Stops (!isBlank ·) b :=
  fun c hc => by simp [hb c (List.mem_of_mem_head? hc)]

/-- Gaps and words in turn have those words. -/
theorem words_gapped (hps : IsLayout (!isBlank ·) ps) (hb : IsBlankLine b) :
    words (gapped ps ++ b) = ps.map Prod.snd := by
  induction ps with
  | nil => exact words_of_isBlankLine hb
  | cons p ps ih =>
    obtain ⟨⟨hgap, hword⟩, hps⟩ := List.forall_mem_cons.1 hps
    rw [gapped_cons, List.append_assoc, List.append_assoc, words_blanks_append hgap.2,
      words_append hword (stops_gapped hps hb.stops), ih hps, List.map_cons]

/-- A line that stands behind a word is gaps and words in turn, then blanks. -/
theorem exists_gapped (l : List Char) (hl : Stops (!isBlank ·) l) (h : words l = ws) :
    ∃ ps b, l = gapped ps ++ b ∧ IsLayout (!isBlank ·) ps ∧ IsBlankLine b ∧
      ws = ps.map Prod.snd := by
  induction ws generalizing l with
  | nil => exact ⟨[], l, rfl, by simp [IsLayout], isBlankLine_of_words_eq_nil h, rfl⟩
  | cons w ws ih =>
    obtain ⟨b, l', hb, hw, hl', rfl, h'⟩ := exists_eq_of_words_eq_cons h
    obtain ⟨ps, b', rfl, hps, hb', rfl⟩ := ih l' hl' h'
    have hgap : b ≠ [] := by
      rintro rfl
      exact hw.not_stops _ hl
    refine ⟨(b, w) :: ps, b', ?_, List.forall_mem_cons.2 ⟨⟨⟨hgap, hb⟩, hw⟩, hps⟩, hb', rfl⟩
    rw [gapped_cons, List.append_assoc, List.append_assoc]

/-- **The words of a line are its first word and those behind the gaps after it.** -/
theorem words_eq_cons_iff : words l = w :: ws ↔ ∃ b ps b', l = b ++ (w ++ (gapped ps ++ b')) ∧
    IsBlankLine b ∧ IsWord w ∧ IsLayout (!isBlank ·) ps ∧ IsBlankLine b' ∧
    ws = ps.map Prod.snd := by
  constructor
  · intro h
    obtain ⟨b, l', hb, hw, hl', rfl, h'⟩ := exists_eq_of_words_eq_cons h
    obtain ⟨ps, b', rfl, hps, hb', rfl⟩ := exists_gapped l' hl' h'
    exact ⟨b, ps, b', rfl, hb, hw, hps, hb', rfl⟩
  · rintro ⟨b, ps, b', rfl, hb, hw, hps, hb', rfl⟩
    rw [words_blanks_append hb, words_append hw (stops_gapped hps hb'.stops),
      words_gapped hps hb']

end SceneText
