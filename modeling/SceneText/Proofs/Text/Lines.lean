import SceneText.Text.Blank
import SceneText.Proofs.Text.Runs

/-!
# Proofs/Text/Lines — a text as a list of lines

A text is cut into lines at its line ends, a carriage return and the line feed after it being one.
A place where a line ends is known by what is left of the text there, so the lines from a place on
are a function of the rest (`linesAfter`), and a text is its first line and the lines after it
(`lines_eq`).  Lines without breaks are read back from a text that joins them (`lines_joinLines`).
-/

namespace SceneText

variable {s t a : List Char} {l : List Char} {ls : List (List Char)}

/-! ## Line ends -/

/-- A text stands at the end of a line: it is over, or a line break follows. -/
def AtLineEnd (s : List Char) : Prop := Stops (!isLineBreak ·) s

/-- What is left of a text after one line end at its front. -/
def dropLineEnd? : List Char → Option (List Char)
  | '\r' :: '\n' :: s => some s
  | c :: s => if isLineBreak c then some s else none
  | [] => none

@[simp] theorem atLineEnd_nil : AtLineEnd [] := stops_nil

/-- Only a text that goes on with a line break has a line end to drop. -/
theorem dropLineEnd?_eq_some_iff : dropLineEnd? a = some t ↔
    ∃ brk, a = brk ++ t ∧ (brk = ['\r', '\n'] ∨ brk = ['\n'] ∨
      brk = ['\r'] ∧ t.head? ≠ some '\n') := by
  constructor
  · fun_cases dropLineEnd? a with
    | case1 s =>
      rintro ⟨⟩
      exact ⟨['\r', '\n'], rfl, .inl rfl⟩
    | case2 c s hc hbrk =>
      rintro ⟨⟩
      rcases (by simpa [isLineBreak] using hbrk : c = '\n' ∨ c = '\r') with rfl | rfl
      · exact ⟨['\n'], rfl, .inr (.inl rfl)⟩
      · refine ⟨['\r'], rfl, .inr (.inr ⟨rfl, fun hhead => ?_⟩)⟩
        obtain ⟨s', rfl⟩ := List.head?_eq_some_iff.1 hhead
        exact hc s' rfl rfl
    | case3 => simp
    | case4 => simp
  · rintro ⟨_, rfl, rfl | rfl | ⟨rfl, hhead⟩⟩
    · rfl
    · rfl
    · rw [List.singleton_append, dropLineEnd?, if_pos (by decide)]
      rintro s - rfl
      exact hhead rfl

theorem atLineEnd_of_dropLineEnd? (h : dropLineEnd? a = some t) : AtLineEnd a := by
  obtain ⟨brk, rfl, rfl | rfl | ⟨rfl, -⟩⟩ := dropLineEnd?_eq_some_iff.1 h
  all_goals exact stops_cons.2 (by decide)

/-- A line end is there unless the text is over. -/
theorem AtLineEnd.eq_nil_or (h : AtLineEnd a) : a = [] ∨ ∃ t, dropLineEnd? a = some t := by
  fun_cases dropLineEnd? a with
  | case1 s => exact .inr ⟨s, rfl⟩
  | case2 c s hc hbrk => exact .inr ⟨s, rfl⟩
  | case3 c s hc hbrk => exact absurd (stops_cons.1 h) (by simpa using hbrk)
  | case4 => exact .inl rfl

/-- There is no line end to drop where the text does not go on with a line break. -/
theorem dropLineEnd?_eq_none_iff : dropLineEnd? a = none ↔ Stops isLineBreak a := by
  fun_cases dropLineEnd? a with
  | case1 s => simp [isLineBreak]
  | case2 c s hc hbrk => simp [hbrk]
  | case3 c s hc hbrk => simpa using hbrk
  | case4 => simp

/-- At the end of a line no run of other characters goes on. -/
theorem AtLineEnd.stops {is : Char → Bool} (h : AtLineEnd s)
    (his : ∀ c, isLineBreak c → is c = false) : Stops is s :=
  fun c hc => his c (by simpa using h c hc)

theorem isBlank_of_isLineBreak (c : Char) (h : isLineBreak c) : isBlank c = false := by
  rcases (by simpa [isLineBreak] using h : c = '\n' ∨ c = '\r') with rfl | rfl <;> rfl

theorem length_lt_of_dropLineEnd? {t : List Char} (h : dropLineEnd? s = some t) :
    t.length < s.length := by
  obtain ⟨brk, rfl, hcases⟩ := dropLineEnd?_eq_some_iff.1 h
  rcases hcases with rfl | rfl | ⟨rfl, -⟩ <;> simp

/-! ## Lines -/

/-- The first line of a text. -/
def firstLine (s : List Char) : List Char := s.takeWhile (!isLineBreak ·)

/-- A text from the end of its first line on. -/
def afterLine (s : List Char) : List Char := s.dropWhile (!isLineBreak ·)

/-- **The lines of a text.** -/
def lines : List Char → List (List Char)
  | [] => [[]]
  | '\r' :: '\n' :: s => [] :: lines s
  | c :: s => if isLineBreak c then [] :: lines s else (lines s).modifyHead (c :: ·)

/-- The lines after the one that ends here. -/
def linesAfter (a : List Char) : List (List Char) := (dropLineEnd? a).elim [] lines

theorem atLineEnd_afterLine (s : List Char) : AtLineEnd (afterLine s) := stops_dropWhile _ s

theorem firstLine_append_afterLine (s : List Char) : firstLine s ++ afterLine s = s :=
  List.takeWhile_append_dropWhile

theorem isLineBreak_of_mem_firstLine {c : Char} (h : c ∈ firstLine s) : isLineBreak c = false := by
  simpa using of_mem_takeWhile h

theorem firstLine_append (hl : ∀ c ∈ l, isLineBreak c = false) (ha : AtLineEnd a) :
    firstLine (l ++ a) = l :=
  takeWhile_append_of_stops (fun c hc => by simp [hl c hc]) ha

theorem afterLine_append (hl : ∀ c ∈ l, isLineBreak c = false) (ha : AtLineEnd a) :
    afterLine (l ++ a) = a :=
  dropWhile_append_of_stops (fun c hc => by simp [hl c hc]) ha

/-- What stands before a line belongs to it. -/
theorem firstLine_append_left (hl : ∀ c ∈ l, isLineBreak c = false) (s : List Char) :
    firstLine (l ++ s) = l ++ firstLine s :=
  List.takeWhile_append_of_pos fun c hc => by simp [hl c hc]

theorem afterLine_append_left (hl : ∀ c ∈ l, isLineBreak c = false) (s : List Char) :
    afterLine (l ++ s) = afterLine s :=
  List.dropWhile_append_of_pos fun c hc => by simp [hl c hc]

theorem stops_firstLine {is : Char → Bool} (h : Stops is s) : Stops is (firstLine s) := by
  cases s with
  | nil => exact h
  | cons c s =>
    rw [firstLine, List.takeWhile_cons]
    split
    · exact stops_cons.2 (stops_cons.1 h)
    · exact stops_nil

theorem AtLineEnd.firstLine (h : AtLineEnd s) : firstLine s = [] := takeWhile_of_stops h

theorem AtLineEnd.afterLine (h : AtLineEnd s) : afterLine s = s := dropWhile_of_stops h

theorem linesAfter_of_dropLineEnd? (h : dropLineEnd? a = some t) : linesAfter a = lines t := by
  rw [linesAfter, h, Option.elim_some]

@[simp] theorem linesAfter_nil : linesAfter [] = [] := rfl

/-- **A text is its first line and the lines after it.** -/
theorem lines_eq (s : List Char) : lines s = firstLine s :: linesAfter (afterLine s) := by
  fun_induction lines s with
  | case1 => rfl
  | case2 s ih => rfl
  | case3 c s hc hbrk ih =>
    have hdrop : dropLineEnd? (c :: s) = some s := by
      rw [dropLineEnd?, if_pos hbrk]
      exact hc
    rw [(atLineEnd_of_dropLineEnd? hdrop).firstLine, (atLineEnd_of_dropLineEnd? hdrop).afterLine,
      linesAfter_of_dropLineEnd? hdrop]
  | case4 c s hc hbrk ih =>
    have hpos : (!isLineBreak c) = true := by simpa using hbrk
    have hfirst : firstLine (c :: s) = c :: firstLine s :=
      List.takeWhile_cons_of_pos (p := (!isLineBreak ·)) hpos
    have hafter : afterLine (c :: s) = afterLine s :=
      List.dropWhile_cons_of_pos (p := (!isLineBreak ·)) hpos
    rw [ih, hfirst, hafter, List.modifyHead_cons]

theorem lines_ne_nil (s : List Char) : lines s ≠ [] := by simp [lines_eq s]

/-- Where lines follow, a line end stands before them. -/
theorem exists_of_linesAfter_ne_nil (h : linesAfter a ≠ []) :
    ∃ t, dropLineEnd? a = some t ∧ lines t = linesAfter a := by
  cases hdrop : dropLineEnd? a with
  | none => exact absurd (by rw [linesAfter, hdrop, Option.elim_none]) h
  | some t => exact ⟨t, rfl, (linesAfter_of_dropLineEnd? hdrop).symm⟩

theorem AtLineEnd.linesAfter_eq_nil_iff (h : AtLineEnd a) : linesAfter a = [] ↔ a = [] := by
  refine ⟨fun hnil => ?_, by rintro rfl; rfl⟩
  obtain rfl | ⟨t, ht⟩ := h.eq_nil_or
  · rfl
  · rw [linesAfter_of_dropLineEnd? ht] at hnil
    exact absurd hnil (lines_ne_nil t)

/-- No line holds a break. -/
theorem isLineBreak_of_mem_lines (hl : l ∈ lines s) {c : Char} (hc : c ∈ l) :
    isLineBreak c = false := by
  fun_induction lines s generalizing l with
  | case1 => simp_all
  | case2 s ih => grind
  | case3 c s _ hbrk ih => grind
  | case4 d s _ hbrk ih =>
    rw [lines_eq] at hl ih
    rcases List.mem_cons.1 hl with rfl | hl
    · rcases List.mem_cons.1 hc with rfl | hc
      · simpa using hbrk
      · exact ih List.mem_cons_self hc
    · exact ih (List.mem_cons_of_mem _ hl) hc

/-! ## Blank and empty lines -/

/-- A line of blanks, or of nothing. -/
def IsBlankLine (l : List Char) : Prop := ∀ c ∈ l, isBlank c

@[simp] theorem isBlankLine_nil : IsBlankLine [] := List.forall_mem_nil _

/-- A blank or a character of a line end. -/
def isSpacing (c : Char) : Bool := isBlank c || isLineBreak c

theorem isSpacing_of_isBlank (c : Char) (h : isBlank c) : isSpacing c := by
  simp [isSpacing, h]

theorem isSpacing_of_isLineBreak (c : Char) (h : isLineBreak c) : isSpacing c := by
  simp [isSpacing, h]

/-- A run that line breaks belong to goes on past a line end. -/
theorem dropWhile_of_dropLineEnd? {is : Char → Bool} (his : ∀ c, isLineBreak c → is c)
    (h : dropLineEnd? a = some t) : a.dropWhile is = t.dropWhile is := by
  have hn : is '\n' := his _ rfl
  have hr : is '\r' := his _ rfl
  obtain ⟨brk, rfl, rfl | rfl | ⟨rfl, -⟩⟩ := dropLineEnd?_eq_some_iff.1 h
  · rw [List.dropWhile_append_of_pos (by simp [hn, hr])]
  · rw [List.dropWhile_append_of_pos (by simp [hn])]
  · rw [List.dropWhile_append_of_pos (by simp [hr])]

/-- **All spacing at the front of a text is blank lines and an indentation.** -/
theorem exists_lines_eq_dropSpacing (s : List Char) : ∃ lead w, (∀ l ∈ lead, IsBlankLine l) ∧
    IsBlankLine w ∧ lines s = lead ++ lines (w ++ s.dropWhile isSpacing) := by
  fun_induction lines s with
  | case1 => exact ⟨[], [], by simp, isBlankLine_nil, rfl⟩
  | case2 s ih =>
    obtain ⟨lead, w, hlead, hw, h⟩ := ih
    refine ⟨[] :: lead, w, List.forall_mem_cons.2 ⟨isBlankLine_nil, hlead⟩, hw, ?_⟩
    rw [h, List.cons_append]
    rfl
  | case3 c s hc hbrk ih =>
    obtain ⟨lead, w, hlead, hw, h⟩ := ih
    refine ⟨[] :: lead, w, List.forall_mem_cons.2 ⟨isBlankLine_nil, hlead⟩, hw, ?_⟩
    rw [List.dropWhile_cons_of_pos (by simp [isSpacing, hbrk]), h, List.cons_append]
  | case4 c s hc hbrk ih =>
    by_cases hblank : isBlank c
    · obtain ⟨lead, w, hlead, hw, h⟩ := ih
      rw [List.dropWhile_cons_of_pos (by simp [isSpacing, hblank]), h]
      cases lead with
      | nil =>
        refine ⟨[], c :: w, hlead, List.forall_mem_cons.2 ⟨hblank, hw⟩, ?_⟩
        rw [List.nil_append, List.nil_append, List.cons_append, lines.eq_3 _ _ (by grind [isBlank]),
          if_neg hbrk]
      | cons l lead =>
        obtain ⟨hl, hlead⟩ := List.forall_mem_cons.1 hlead
        exact ⟨(c :: l) :: lead, w,
          List.forall_mem_cons.2 ⟨List.forall_mem_cons.2 ⟨hblank, hl⟩, hlead⟩, hw, rfl⟩
    · refine ⟨[], [], by simp, isBlankLine_nil, ?_⟩
      rw [List.dropWhile_cons_of_neg (by simp [isSpacing, hblank, hbrk]), List.nil_append,
        List.nil_append, lines.eq_3 _ _ hc, if_neg hbrk]

/-- Blank lines at the front of a text are spacing. -/
theorem exists_lines_eq_of_blank {lead : List (List Char)} (hlead : ∀ l ∈ lead, IsBlankLine l)
    (h : lines s = lead ++ ls) (hls : ls ≠ []) :
    ∃ t, lines t = ls ∧ s.dropWhile isSpacing = t.dropWhile isSpacing := by
  induction lead generalizing s with
  | nil => exact ⟨s, h, rfl⟩
  | cons l lead ih =>
    obtain ⟨hl, hlead⟩ := List.forall_mem_cons.1 hlead
    rw [lines_eq, List.cons_append, List.cons.injEq] at h
    obtain ⟨t, hdrop, ht⟩ := exists_of_linesAfter_ne_nil (a := afterLine s) (by simp [h.2, hls])
    obtain ⟨t', ht', hspacing⟩ := ih hlead (ht.trans h.2)
    refine ⟨t', ht', ?_⟩
    rw [← firstLine_append_afterLine s, List.dropWhile_append_of_pos,
      dropWhile_of_dropLineEnd? (fun c hc => by simp [isSpacing, hc]) hdrop, hspacing]
    intro c hc
    rw [h.1] at hc
    simp [isSpacing, hl c hc]

/-- **A text of spacing is a text of blank lines.** -/
theorem forall_isSpacing_iff : (∀ c ∈ s, isSpacing c) ↔ ∀ l ∈ lines s, IsBlankLine l := by
  fun_induction lines s with
  | case1 => simp [IsBlankLine]
  | case2 s ih =>
    rw [List.forall_mem_cons, List.forall_mem_cons, List.forall_mem_cons, ih]
    simp [isSpacing, isLineBreak, IsBlankLine]
  | case3 c s hc hbrk ih =>
    rw [List.forall_mem_cons, List.forall_mem_cons, ih]
    simp [isSpacing, hbrk, IsBlankLine]
  | case4 c s hc hbrk ih =>
    rw [List.forall_mem_cons, ih, lines_eq s]
    simp [isSpacing, hbrk, IsBlankLine, and_assoc]

/-- At the end of a line, spacing is blank lines after it. -/
theorem AtLineEnd.forall_isSpacing_iff (h : AtLineEnd a) :
    (∀ c ∈ a, isSpacing c) ↔ ∀ l ∈ linesAfter a, IsBlankLine l := by
  have hlines := lines_eq a
  rw [h.firstLine, h.afterLine] at hlines
  rw [SceneText.forall_isSpacing_iff, hlines, List.forall_mem_cons]
  simp [IsBlankLine]

/-- **A run of line breaks at the front of a text is empty lines.** -/
theorem exists_lines_eq_dropBreaks (s : List Char) :
    ∃ n, lines s = List.replicate n [] ++ lines (s.dropWhile isLineBreak) := by
  fun_induction lines s with
  | case1 => exact ⟨0, rfl⟩
  | case2 s ih =>
    obtain ⟨n, h⟩ := ih
    refine ⟨n + 1, ?_⟩
    rw [h, List.replicate_succ, List.cons_append]
    rfl
  | case3 c s hc hbrk ih =>
    obtain ⟨n, h⟩ := ih
    exact ⟨n + 1, by rw [h, List.dropWhile_cons_of_pos hbrk, List.replicate_succ, List.cons_append]⟩
  | case4 c s hc hbrk ih =>
    exact ⟨0, by rw [List.dropWhile_cons_of_neg hbrk, List.replicate_zero, List.nil_append,
      lines.eq_3 _ _ hc, if_neg hbrk]⟩

/-- Empty lines before one that is not are a run of line breaks. -/
theorem lines_dropBreaks {n : Nat} (h : lines s = List.replicate n [] ++ l :: ls) (hl : l ≠ []) :
    lines (s.dropWhile isLineBreak) = l :: ls := by
  induction n generalizing s with
  | zero =>
    rw [List.replicate_zero, List.nil_append] at h
    rw [dropWhile_of_stops, h]
    rw [lines_eq, List.cons.injEq] at h
    obtain ⟨rfl, -⟩ := h
    rw [← firstLine_append_afterLine s]
    have hrun : IsRun (!isLineBreak ·) (firstLine s) :=
      ⟨hl, fun c hc => by simp [isLineBreak_of_mem_firstLine hc]⟩
    exact hrun.stops (fun c hc => by simpa using hc) _
  | succ n ih =>
    rw [List.replicate_succ, List.cons_append, lines_eq, List.cons.injEq] at h
    obtain ⟨t, hdrop, ht⟩ := exists_of_linesAfter_ne_nil (a := afterLine s) (by simp [h.2])
    have hs : afterLine s = s := by simpa [h.1] using firstLine_append_afterLine s
    rw [hs] at hdrop h ht
    rw [dropWhile_of_dropLineEnd? (fun _ h => h) hdrop, ih (ht.trans h.2)]

/-! ## Joining lines -/

/-- Behind the first of a list stands what separates, before each other one. -/
theorem intercalate_cons {α : Type} (sep l : List α) (ls : List (List α)) :
    sep.intercalate (l :: ls) = l ++ ls.flatMap (sep ++ ·) := by
  induction ls generalizing l with
  | nil => simp
  | cons l' ls ih => rw [List.intercalate_cons_cons, ih, List.flatMap_cons, List.append_assoc,
      List.append_assoc]

/-- What holds of all that is joined and of what separates it holds of the whole. -/
theorem forall_mem_intercalate {α : Type} {P : α → Prop} {sep : List α} {ls : List (List α)}
    (hsep : ∀ x ∈ sep, P x) (h : ∀ l ∈ ls, ∀ x ∈ l, P x) : ∀ x ∈ sep.intercalate ls, P x := by
  cases ls with
  | nil => simp
  | cons l ls =>
    obtain ⟨hl, hls⟩ := List.forall_mem_cons.1 h
    rw [intercalate_cons, List.forall_mem_append]
    refine ⟨hl, fun x hx => ?_⟩
    obtain ⟨l', hl', hx⟩ := List.mem_flatMap.1 hx
    exact (List.mem_append.1 hx).elim (hsep x) (hls l' hl' x)

/-- Lines with a line end between each two of them. -/
def joinLines (brk : List Char) (ls : List (List Char)) : List Char := brk.intercalate ls

theorem joinLines_cons (brk l : List Char) (ls : List (List Char)) :
    joinLines brk (l :: ls) = l ++ ls.flatMap (brk ++ ·) :=
  intercalate_cons brk l ls

/-- Between two lists of lines stands a line end. -/
theorem joinLines_append {brk : List Char} {ls ls' : List (List Char)} (h : ls ≠ [])
    (h' : ls' ≠ []) :
    joinLines brk (ls ++ ls') = joinLines brk ls ++ (brk ++ joinLines brk ls') := by
  obtain ⟨l, ls, rfl⟩ := List.exists_cons_of_ne_nil h
  obtain ⟨l', ls', rfl⟩ := List.exists_cons_of_ne_nil h'
  simp [joinLines_cons]

/-- **Lines that hold no break are read back from their text.** -/
theorem lines_joinLines {brk : List Char} (hbrk : brk = ['\n'] ∨ brk = ['\r', '\n'])
    (hls : ls ≠ []) (h : ∀ l ∈ ls, ∀ c ∈ l, isLineBreak c = false) :
    lines (joinLines brk ls) = ls := by
  induction ls with
  | nil => exact absurd rfl hls
  | cons l ls ih =>
    obtain ⟨hl, h⟩ := List.forall_mem_cons.1 h
    cases ls with
    | nil =>
      have hfirst := firstLine_append hl atLineEnd_nil
      have hafter := afterLine_append hl atLineEnd_nil
      rw [List.append_nil] at hfirst hafter
      rw [joinLines, List.intercalate_singleton, lines_eq, hfirst, hafter, linesAfter_nil]
    | cons l' ls =>
      have hdrop : dropLineEnd? (brk ++ joinLines brk (l' :: ls)) =
          some (joinLines brk (l' :: ls)) := by
        rcases hbrk with rfl | rfl <;> rfl
      have hend := atLineEnd_of_dropLineEnd? hdrop
      rw [joinLines, List.intercalate_cons_cons, List.append_assoc, ← joinLines, lines_eq,
        firstLine_append hl hend, afterLine_append hl hend, linesAfter_of_dropLineEnd? hdrop,
        ih (by simp) h]

end SceneText
