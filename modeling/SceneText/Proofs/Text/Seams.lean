import SceneText.Proofs.Text.Lines

/-!
# Proofs/Text/Seams — lines of texts put together and taken apart

Where one text is put behind another, the last line of the first goes on with the first line of the
second (`exists_lines_append`).  The one exception is a line feed behind a carriage return: the two
make up a single line end, so the line feed counts for nothing.  Conversely a text can be cut
between any two of its lines (`exists_eq_append_of_lines`), and empty lines are line ends in a row
(`exists_lineEnds_of_linesAfter`).
-/

namespace SceneText

variable {a b s t w : List Char} {l : List Char} {ls ls' : List (List Char)}

/-- **A text is one line, or a line, its end, and a text.** -/
theorem lines_induction {P : List Char → Prop}
    (line : ∀ l, (∀ c ∈ l, isLineBreak c = false) → P l)
    (step : ∀ l a t, (∀ c ∈ l, isLineBreak c = false) → dropLineEnd? a = some t → P t → P (l ++ a))
    (s : List Char) : P s := by
  induction hn : s.length using Nat.strongRecOn generalizing s with
  | ind n ih =>
    subst hn
    have hline : ∀ c ∈ firstLine s, isLineBreak c = false := fun c => isLineBreak_of_mem_firstLine
    rw [← firstLine_append_afterLine s] at ih ⊢
    obtain hnil | ⟨t, ht⟩ := (atLineEnd_afterLine s).eq_nil_or
    · rw [hnil, List.append_nil]
      exact line _ hline
    · refine step _ _ t hline ht (ih _ ?_ t rfl)
      obtain ⟨brk, hbrk, rfl | rfl | ⟨rfl, -⟩⟩ := dropLineEnd?_eq_some_iff.1 ht <;>
        simp [hbrk] <;> omega

/-! ## Seams -/

/-- No line end is cut in two between the texts. -/
def Seam (a b : List Char) : Prop := a.getLast? = some '\r' → b.head? ≠ some '\n'

/-- A text is empty or ends with a line break, so that a line begins behind it. -/
def EndsLine (a : List Char) : Prop := ∀ c ∈ a.getLast?, isLineBreak c

/-- Behind a text that does not end with a line break there is no line end to cut. -/
theorem seam_of_not_endsLine (h : ¬ EndsLine a) (b : List Char) : Seam a b := by
  intro hr
  refine absurd (fun c hc => ?_) h
  rw [hr] at hc
  cases hc
  rfl

/-- A line end is taken whole. -/
theorem seam_of_dropLineEnd? {brk : List Char} (h : dropLineEnd? (brk ++ s) = some s) :
    Seam brk s := by
  obtain ⟨brk', hbrk, hcases⟩ := dropLineEnd?_eq_some_iff.1 h
  obtain rfl := List.append_cancel_right hbrk
  rcases hcases with rfl | rfl | ⟨rfl, hhead⟩
  · simp [Seam]
  · simp [Seam]
  · exact fun _ => hhead

/-- Behind characters of lines no line end is cut. -/
theorem seam_of_forall (hl : ∀ c ∈ l, isLineBreak c = false) (s : List Char) : Seam l s := by
  intro hr
  exact absurd (hl _ (List.mem_of_getLast? hr)) (by decide)

/-- **A line end stays one in front of a text**, unless it is cut in two there. -/
theorem dropLineEnd?_append (h : dropLineEnd? a = some t) (hb : t = [] → Seam a b) :
    dropLineEnd? (a ++ b) = some (t ++ b) := by
  obtain ⟨brk, rfl, hbrk⟩ := dropLineEnd?_eq_some_iff.1 h
  refine dropLineEnd?_eq_some_iff.2 ⟨brk, List.append_assoc _ _ _, ?_⟩
  refine hbrk.imp_right (Or.imp_right ?_)
  rintro ⟨rfl, ht⟩
  refine ⟨rfl, ?_⟩
  cases t with
  | nil => exact hb rfl rfl
  | cons c t => exact ht

/-- A line break is the last character where nothing follows a line end. -/
theorem endsLine_of_dropLineEnd? (h : dropLineEnd? a = some []) : EndsLine (l ++ a) := by
  obtain ⟨brk, rfl, rfl | rfl | ⟨rfl, -⟩⟩ := dropLineEnd?_eq_some_iff.1 h <;>
    simp [EndsLine, isLineBreak]

/-- A carriage return at the end is one line end with a line feed behind it. -/
theorem dropLineEnd?_append_lineFeed (h : dropLineEnd? a = some []) (hr : a.getLast? = some '\r') :
    dropLineEnd? (a ++ '\n' :: b) = some b := by
  obtain ⟨brk, rfl, rfl | rfl | ⟨rfl, -⟩⟩ := dropLineEnd?_eq_some_iff.1 h
  · simp at hr
  · simp at hr
  · rfl

/-! ## Lines put together -/

theorem lines_append_left (hl : ∀ c ∈ l, isLineBreak c = false) (b : List Char) :
    lines (l ++ b) = (lines b).modifyHead (l ++ ·) := by
  rw [lines_eq, lines_eq b, firstLine_append_left hl, afterLine_append_left hl,
    List.modifyHead_cons]

theorem lines_of_forall (hl : ∀ c ∈ l, isLineBreak c = false) : lines l = [l] := by
  simpa [lines] using lines_append_left hl []

/-- A line and its end stand before the lines of what follows. -/
theorem lines_append_of_dropLineEnd? (hl : ∀ c ∈ l, isLineBreak c = false)
    (h : dropLineEnd? a = some t) : lines (l ++ a) = l :: lines t := by
  have ha := atLineEnd_of_dropLineEnd? h
  rw [lines_eq, firstLine_append hl ha, afterLine_append hl ha, linesAfter_of_dropLineEnd? h]

/-- The end of a text is that of what follows its first line end, if that is not empty. -/
theorem getLast?_append_of_dropLineEnd? (h : dropLineEnd? a = some t) (ht : t ≠ []) :
    (l ++ a).getLast? = t.getLast? := by
  obtain ⟨brk, rfl, -⟩ := dropLineEnd?_eq_some_iff.1 h
  rw [← List.append_assoc, List.getLast?_append_of_ne_nil _ ht]

/-- A text that ends with a line end has the last character of that. -/
theorem getLast?_append_of_dropLineEnd?_nil (h : dropLineEnd? a = some []) :
    (l ++ a).getLast? = a.getLast? := by
  refine List.getLast?_append_of_ne_nil _ ?_
  rintro rfl
  cases h

/-- **The last line of a text goes on in what is put behind it.** -/
theorem exists_lines_append (a : List Char) : ∃ init last, lines a = init ++ [last] ∧
    (last = [] ↔ EndsLine a) ∧
    (∀ b, Seam a b → lines (a ++ b) = init ++ (lines b).modifyHead (last ++ ·)) ∧
    (∀ b, a.getLast? = some '\r' → lines (a ++ '\n' :: b) = init ++ lines b) := by
  induction a using lines_induction with
  | line l hl =>
    refine ⟨[], l, lines_of_forall hl, ⟨?_, fun hends => ?_⟩, fun b _ => lines_append_left hl b,
      fun b hr => ?_⟩
    · rintro rfl
      simp [EndsLine]
    · by_contra hne
      have hlast := hends _ (List.getLast?_eq_getLast_of_ne_nil hne)
      rw [hl _ (List.getLast_mem hne)] at hlast
      cases hlast
    · exact absurd (hl _ (List.mem_of_getLast? hr)) (by decide)
  | step l a t hl ha ih =>
    by_cases ht : t = []
    case pos =>
      subst ht
      have hlast := getLast?_append_of_dropLineEnd?_nil (l := l) ha
      refine ⟨[l], [], lines_append_of_dropLineEnd? hl ha, by simp [endsLine_of_dropLineEnd? ha],
        fun b hb => ?_, fun b hr => ?_⟩
      · have hdrop := dropLineEnd?_append ha fun _ => by rwa [Seam, ← hlast]
        rw [List.append_assoc, lines_append_of_dropLineEnd? hl hdrop]
        exact congrArg (l :: ·) (congrFun List.modifyHead_id (lines b)).symm
      · rw [List.append_assoc, lines_append_of_dropLineEnd? hl
          (dropLineEnd?_append_lineFeed ha (hlast ▸ hr)), List.singleton_append]
    case neg =>
      have hlast := getLast?_append_of_dropLineEnd? (l := l) ha ht
      obtain ⟨init, last, hlines, hends, hseam, hfeed⟩ := ih
      have hstep (b : List Char) : lines (l ++ a ++ b) = l :: lines (t ++ b) := by
        rw [List.append_assoc,
          lines_append_of_dropLineEnd? hl (dropLineEnd?_append ha fun hnil => absurd hnil ht)]
      refine ⟨l :: init, last, ?_, ?_, fun b hb => ?_, fun b hr => ?_⟩
      · rw [lines_append_of_dropLineEnd? hl ha, hlines, List.cons_append]
      · rw [hends, EndsLine, EndsLine, hlast]
      · rw [hstep, hseam b (by rwa [Seam, ← hlast]), List.cons_append]
      · rw [hstep, hfeed b (hlast ▸ hr), List.cons_append]

/-- What begins at the end of a line leaves the lines before it as they are. -/
theorem lines_append_of_atLineEnd (h : Seam a b) (hb : AtLineEnd b) :
    lines (a ++ b) = lines a ++ linesAfter b := by
  obtain ⟨init, last, hlines, -, hseam, -⟩ := exists_lines_append a
  rw [hseam b h, lines_eq b, hb.firstLine, hb.afterLine, List.modifyHead_cons, List.append_nil,
    hlines, List.append_assoc, List.singleton_append]

/-- Whatever is put behind a text, its last line goes on, with a line feed that completes a line end
left out. -/
theorem exists_lines_append_any (a : List Char) : ∃ init last, lines a = init ++ [last] ∧
    (last = [] ↔ EndsLine a) ∧ ∀ b, ∃ b', (b = b' ∨ b = '\n' :: b') ∧
      lines (a ++ b) = init ++ (lines b').modifyHead (last ++ ·) := by
  obtain ⟨init, last, hlines, hends, hseam, hfeed⟩ := exists_lines_append a
  refine ⟨init, last, hlines, hends, fun b => ?_⟩
  by_cases h : Seam a b
  case pos => exact ⟨b, .inl rfl, hseam b h⟩
  case neg =>
    obtain ⟨hr, hhead⟩ := by simpa [Seam] using h
    obtain ⟨b', rfl⟩ := List.head?_eq_some_iff.1 hhead
    have hlast : last = [] := by
      by_contra hne
      exact h (seam_of_not_endsLine (mt hends.2 hne) _)
    refine ⟨b', .inr rfl, ?_⟩
    rw [hfeed b' hr, hlast]
    exact congrArg (init ++ ·) (congrFun List.modifyHead_id (lines b')).symm

/-- Behind a line end the lines begin anew. -/
theorem EndsLine.exists_lines_append (ha : EndsLine a) : ∃ init, lines a = init ++ [[]] ∧
    ∀ b, ∃ b', (b = b' ∨ b = '\n' :: b') ∧ lines (a ++ b) = init ++ lines b' := by
  obtain ⟨init, last, hlines, hends, happend⟩ := exists_lines_append_any a
  obtain rfl := hends.2 ha
  have hmodify (ls : List (List Char)) : ls.modifyHead ([] ++ ·) = ls :=
    congrFun List.modifyHead_id ls
  simp only [hmodify] at happend
  exact ⟨init, hlines, happend⟩

/-- A line that is not empty goes on with no line break. -/
theorem stops_isLineBreak_append (hl : ∀ c ∈ l, isLineBreak c = false) (hne : l ≠ [])
    (b : List Char) : Stops isLineBreak (l ++ b) := by
  have hrun : IsRun (!isLineBreak ·) l := ⟨hne, fun c hc => by simp [hl c hc]⟩
  exact hrun.stops (fun c hc => by simpa using hc) b

/-- **A line that is not empty stands between the lines before it and those after it**, and line
breaks put before it are empty lines. -/
theorem EndsLine.exists_lines_append_line (ha : EndsLine a) : ∃ init, ∀ {l b : List Char},
    (∀ c ∈ l, isLineBreak c = false) → l ≠ [] → AtLineEnd b →
      lines (a ++ (l ++ b)) = init ++ l :: linesAfter b ∧
        ∀ w, (∀ c ∈ w, isLineBreak c) → ∃ n,
          lines (a ++ (w ++ (l ++ b))) = init ++ (List.replicate n [] ++ l :: linesAfter b) := by
  obtain ⟨init, -, happend⟩ := ha.exists_lines_append
  refine ⟨init, fun {l b} hl hne hb => ?_⟩
  have hfirst : lines (l ++ b) = l :: linesAfter b := by
    rw [lines_eq, firstLine_append hl hb, afterLine_append hl hb]
  have hstop := stops_isLineBreak_append hl hne b
  have hfeed (s : List Char) : l ++ b ≠ '\n' :: s := by
    intro h
    rw [h] at hstop
    exact absurd (stops_cons.1 hstop) (by decide)
  refine ⟨?_, fun w hw => ?_⟩
  · obtain ⟨b', rfl | h, hlines⟩ := happend (l ++ b)
    · rw [hlines, hfirst]
    · exact absurd h (hfeed b')
  · obtain ⟨b', hb', hlines⟩ := happend (w ++ (l ++ b))
    obtain ⟨w', hw', rfl⟩ : ∃ w', (∀ c ∈ w', isLineBreak c) ∧ b' = w' ++ (l ++ b) := by
      rcases hb' with rfl | h
      · exact ⟨w, hw, rfl⟩
      · cases w with
        | nil => exact absurd h (hfeed b')
        | cons c w =>
          cases h
          exact ⟨w, (List.forall_mem_cons.1 hw).2, rfl⟩
    obtain ⟨n, hn⟩ := exists_lines_eq_dropBreaks (w' ++ (l ++ b))
    rw [dropWhile_append_of_stops hw' hstop, hfirst] at hn
    exact ⟨n, by rw [hlines, hn]⟩

/-- **Spacing behind a text is blanks on its last line, and blank lines.** -/
theorem exists_lines_append_spacing (s : List Char) (hw : ∀ c ∈ w, isSpacing c) :
    ∃ init last b blank, lines s = init ++ [last] ∧ IsBlankLine b ∧ (∀ l ∈ blank, IsBlankLine l) ∧
      lines (s ++ w) = init ++ (last ++ b) :: blank := by
  obtain ⟨init, last, hlines, -, happend⟩ := exists_lines_append_any s
  obtain ⟨w', hw', h⟩ := happend w
  have hspacing : ∀ c ∈ w', isSpacing c := by
    rcases hw' with rfl | rfl
    · exact hw
    · exact (List.forall_mem_cons.1 hw).2
  have hblank := forall_isSpacing_iff.1 hspacing
  rw [lines_eq w'] at hblank h
  obtain ⟨hfirst, hmore⟩ := List.forall_mem_cons.1 hblank
  exact ⟨init, last, _, _, hlines, hfirst, hmore, by rw [h, List.modifyHead_cons]⟩

/-! ## Taking texts apart -/

/-- A line end stays one where what follows it is cut off. -/
theorem exists_dropLineEnd?_of_append (h : dropLineEnd? a = some (t ++ b)) :
    ∃ brk, a = brk ++ (t ++ b) ∧ dropLineEnd? (brk ++ t) = some t := by
  obtain ⟨brk, rfl, hbrk⟩ := dropLineEnd?_eq_some_iff.1 h
  refine ⟨brk, rfl, dropLineEnd?_eq_some_iff.2 ⟨brk, rfl, ?_⟩⟩
  refine hbrk.imp_right (Or.imp_right (And.imp_right fun hhead => ?_))
  cases t with
  | nil => simp
  | cons c t => exact hhead

/-- **A text can be cut behind any of its lines.** -/
theorem exists_eq_append_of_lines (hs : lines s = ls ++ ls') (hne : ls ≠ []) :
    ∃ a b, s = a ++ b ∧ AtLineEnd b ∧ lines a = ls ∧ linesAfter b = ls' := by
  obtain ⟨l₁, ls, rfl⟩ := List.exists_cons_of_ne_nil hne
  induction s using lines_induction generalizing l₁ ls with
  | line l hl =>
    rw [lines_of_forall hl, List.cons_append, List.cons.injEq] at hs
    obtain ⟨rfl, hs⟩ := hs
    obtain ⟨rfl, rfl⟩ := List.append_eq_nil_iff.1 hs.symm
    exact ⟨l, [], (List.append_nil l).symm, atLineEnd_nil, lines_of_forall hl, rfl⟩
  | step l a t hl ha ih =>
    rw [lines_append_of_dropLineEnd? hl ha, List.cons_append, List.cons.injEq] at hs
    obtain ⟨rfl, hs⟩ := hs
    cases ls with
    | nil =>
      rw [List.nil_append] at hs
      exact ⟨l, a, rfl, atLineEnd_of_dropLineEnd? ha, lines_of_forall hl,
        (linesAfter_of_dropLineEnd? ha).trans hs⟩
    | cons l₂ ls =>
      obtain ⟨a', b, rfl, hb, hlines, hafter⟩ := ih l₂ ls hs (List.cons_ne_nil l₂ ls)
      obtain ⟨brk, rfl, hdrop⟩ := exists_dropLineEnd?_of_append ha
      refine ⟨l ++ (brk ++ a'), b, by simp, hb, ?_, hafter⟩
      rw [lines_append_of_dropLineEnd? hl hdrop, hlines]

/-! ## Line ends in a row -/

/-- So many line ends, one directly behind the other. -/
inductive LineEnds : Nat → List Char → Prop
  | nil : LineEnds 0 []
  | cons {n : Nat} {s t : List Char} :
    dropLineEnd? s = some t → LineEnds n t → LineEnds (n + 1) s

theorem lineEnds_replicate (n : Nat) : LineEnds n (List.replicate n '\n') := by
  induction n with
  | zero => exact .nil
  | succ n ih => exact .cons rfl ih

/-- A line that begins where one ends is empty. -/
theorem AtLineEnd.lines_eq (h : AtLineEnd a) : lines a = [] :: linesAfter a := by
  rw [SceneText.lines_eq, h.firstLine, h.afterLine]

/-- **Line ends in a row are empty lines**, one less than there are line ends. -/
theorem LineEnds.exists_linesAfter {n : Nat} (h : LineEnds (n + 1) s) (t : List Char) :
    AtLineEnd (s ++ t) ∧ ∃ t', (t = t' ∨ t = '\n' :: t') ∧
      linesAfter (s ++ t) = List.replicate n [] ++ lines t' := by
  induction n generalizing s with
  | zero =>
    cases h with
    | cons hdrop hnil =>
      cases hnil
      by_cases hseam : Seam s t
      case pos =>
        have hdrop' := dropLineEnd?_append hdrop fun _ => hseam
        exact ⟨atLineEnd_of_dropLineEnd? hdrop', t, .inl rfl, linesAfter_of_dropLineEnd? hdrop'⟩
      case neg =>
        obtain ⟨hr, hhead⟩ := by simpa [Seam] using hseam
        obtain ⟨t', rfl⟩ := List.head?_eq_some_iff.1 hhead
        have hdrop' := dropLineEnd?_append_lineFeed (b := t') hdrop hr
        exact ⟨atLineEnd_of_dropLineEnd? hdrop', t', .inr rfl, linesAfter_of_dropLineEnd? hdrop'⟩
  | succ n ih =>
    cases h with
    | @cons _ _ u hdrop hmore =>
      obtain ⟨hend, t', ht', hlines⟩ := ih hmore
      have hdrop' : dropLineEnd? (s ++ t) = some (u ++ t) := by
        refine dropLineEnd?_append hdrop ?_
        rintro rfl
        cases hmore with
        | cons hnone => cases hnone
      refine ⟨atLineEnd_of_dropLineEnd? hdrop', t', ht', ?_⟩
      rw [linesAfter_of_dropLineEnd? hdrop', hend.lines_eq, hlines, List.replicate_succ,
        List.cons_append]

/-- **Empty lines are line ends in a row.** -/
theorem exists_lineEnds_of_linesAfter {n : Nat} (h : linesAfter s = List.replicate n [] ++ ls)
    (hls : ls ≠ []) : ∃ ends t, s = ends ++ t ∧ LineEnds (n + 1) ends ∧ lines t = ls := by
  obtain ⟨t, hdrop, ht⟩ := exists_of_linesAfter_ne_nil (a := s) (by simp [h, hls])
  induction n generalizing s t with
  | zero =>
    obtain ⟨brk, rfl, hdrop'⟩ := exists_dropLineEnd?_of_append (t := []) hdrop
    exact ⟨brk ++ [], t, by simp, .cons hdrop' .nil, ht.trans h⟩
  | succ n ih =>
    rw [h, List.replicate_succ, List.cons_append, lines_eq, List.cons.injEq] at ht
    have hend : afterLine t = t := by simpa [ht.1] using firstLine_append_afterLine t
    rw [hend] at ht
    obtain ⟨u, hdrop', hu⟩ := exists_of_linesAfter_ne_nil (a := t) (by simp [ht.2, hls])
    obtain ⟨ends, u, rfl, hends, hlines⟩ := ih ht.2 u hdrop' hu
    obtain ⟨brk, rfl, hbrk⟩ := exists_dropLineEnd?_of_append hdrop
    exact ⟨brk ++ ends, u, by simp, .cons hbrk hends, hlines⟩

end SceneText
