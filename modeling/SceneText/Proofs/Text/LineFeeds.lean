import SceneText.Text.Offset
import SceneText.Proofs.Text.Seams

/-!
# Proofs/Text/LineFeeds — a text with every line end a line feed

`lineFeeds` puts a line feed in the place of every line end, a carriage return and the line feed
after it being one.  It works on each of two texts for itself, unless a line end is cut in two
between them (`lineFeeds_append`), so places in a text that cut no line end (`Cut`) have places in
the other that correspond, in the same order (`Cut.length_lt_iff`).
-/

namespace SceneText

variable {a b s t w source : List Char} {l : List Char} {c : Char}

/-- **The text with every line end a line feed.** -/
def lineFeeds : List Char → List Char
  | '\r' :: '\n' :: s => '\n' :: lineFeeds s
  | c :: s => (if isLineBreak c then '\n' else c) :: lineFeeds s
  | [] => []

@[simp] theorem lineFeeds_nil : lineFeeds [] = [] := rfl

theorem lineFeeds_cons (hc : isLineBreak c = false) (s : List Char) :
    lineFeeds (c :: s) = c :: lineFeeds s := by
  rw [lineFeeds, if_neg (by simp [hc])]
  rintro s' rfl
  cases hc

/-- A line end is a line feed. -/
theorem lineFeeds_of_dropLineEnd? (h : dropLineEnd? s = some t) :
    lineFeeds s = '\n' :: lineFeeds t := by
  obtain ⟨brk, rfl, rfl | rfl | ⟨rfl, hhead⟩⟩ := dropLineEnd?_eq_some_iff.1 h
  · rfl
  · rfl
  · rw [List.singleton_append, lineFeeds]
    · rfl
    · rintro s' - rfl
      exact hhead rfl

/-- **A text is empty, goes on with a character of a line, or with a line end.** -/
theorem lineFeeds_cases {P : List Char → Prop} (nil : P [])
    (cons : ∀ c s, isLineBreak c = false → P s → P (c :: s))
    (lineEnd : ∀ s t, dropLineEnd? s = some t → P t → P s) (s : List Char) : P s := by
  fun_induction lineFeeds s with
  | case1 s ih => exact lineEnd _ s rfl ih
  | case2 c s hcrlf ih =>
    by_cases hc : isLineBreak c
    · refine lineEnd _ s ?_ ih
      rw [dropLineEnd?, if_pos hc]
      exact hcrlf
    · exact cons c s (by simpa using hc) ih
  | case3 => exact nil

theorem lineFeeds_of_forall (hl : ∀ c ∈ l, isLineBreak c = false) : lineFeeds l = l := by
  induction l with
  | nil => rfl
  | cons c l ih =>
    obtain ⟨hc, hl⟩ := List.forall_mem_cons.1 hl
    rw [lineFeeds_cons hc, ih hl]

theorem lineFeeds_ne_nil (h : s ≠ []) : lineFeeds s ≠ [] := by
  fun_cases lineFeeds s with
  | case1 => simp
  | case2 => simp
  | case3 => exact absurd rfl h

theorem dropLineEnd?_lineFeeds (s : List Char) :
    dropLineEnd? (lineFeeds s) = (dropLineEnd? s).map lineFeeds := by
  induction s using lineFeeds_cases with
  | nil => rfl
  | cons c s hc _ =>
    have hstop {t : List Char} : dropLineEnd? (c :: t) = none :=
      dropLineEnd?_eq_none_iff.2 (stops_cons.2 hc)
    rw [lineFeeds_cons hc, hstop, hstop, Option.map_none]
  | lineEnd s t h _ =>
    rw [lineFeeds_of_dropLineEnd? h, h]
    rfl

/-- The first character is the same, or both are line breaks. -/
theorem head?_all_lineFeeds {is : Char → Bool} (his : ∀ c, isLineBreak c → is c = is '\n')
    (s : List Char) : (lineFeeds s).head?.all is = s.head?.all is := by
  fun_cases lineFeeds s with
  | case1 s => simp [his '\r' rfl]
  | case2 c s =>
    by_cases hc : isLineBreak c
    · simp [hc, his c hc]
    · simp [hc]
  | case3 => rfl

/-- A run of characters of lines is the same. -/
theorem takeWhile_lineFeeds {is : Char → Bool} (his : ∀ c, isLineBreak c → is c = false)
    (s : List Char) : (lineFeeds s).takeWhile is = s.takeWhile is := by
  induction s using lineFeeds_cases with
  | nil => rfl
  | cons c s hc ih =>
    rw [lineFeeds_cons hc, List.takeWhile_cons, List.takeWhile_cons, ih]
  | lineEnd s t h _ =>
    have hstop : Stops is s := (atLineEnd_of_dropLineEnd? h).stops his
    rw [lineFeeds_of_dropLineEnd? h, takeWhile_of_stops hstop,
      takeWhile_of_stops (stops_cons.2 (his '\n' rfl))]

/-! ## Texts put together -/

/-- Only the end of a text matters for a seam behind it. -/
theorem Seam.right (h : Seam (a ++ b) t) : Seam b t := by
  intro hr
  refine h ?_
  rw [List.getLast?_append, hr]
  rfl

/-- Only the front of a text matters for a seam before it. -/
theorem Seam.left (h : Seam a (b ++ t)) : Seam a b := by
  intro hr hn
  refine h hr ?_
  rw [List.head?_append, hn]
  rfl

theorem seam_nil_left (b : List Char) : Seam [] b := by simp [Seam]

/-- Seams of both parts of a text, if one is put before another. -/
theorem Seam.append_left (hb : Seam b t) (ha : Seam a (b ++ t)) : Seam (a ++ b) t := by
  by_cases h : b = []
  · rwa [h, List.append_nil, ← List.nil_append t, ← h]
  · rwa [Seam, List.getLast?_append_of_ne_nil _ h]

/-- **Two texts have their line ends each for itself**, unless one is cut in two. -/
theorem lineFeeds_append (h : Seam a b) : lineFeeds (a ++ b) = lineFeeds a ++ lineFeeds b := by
  induction a using lineFeeds_cases with
  | nil => rfl
  | cons c a hc ih =>
    rw [List.cons_append, lineFeeds_cons hc, lineFeeds_cons hc, ih (Seam.right (a := [c]) h),
      List.cons_append]
  | lineEnd a t ha ih =>
    obtain ⟨brk, rfl, -⟩ := dropLineEnd?_eq_some_iff.1 ha
    have hdrop := dropLineEnd?_append (b := b) ha fun hnil => by
      rw [hnil, List.append_nil] at h ⊢
      exact h
    rw [lineFeeds_of_dropLineEnd? hdrop, lineFeeds_of_dropLineEnd? ha, ih (Seam.right h),
      List.cons_append]

/-! ## Places -/

/-- What is left of a text at a place that cuts no line end. -/
def Cut (source s : List Char) : Prop := ∃ before, source = before ++ s ∧ Seam before s

theorem Cut.refl (source : List Char) : Cut source source := ⟨[], rfl, seam_nil_left source⟩

theorem Cut.append (h : Cut source (a ++ s)) (ha : Seam a s) : Cut source s := by
  obtain ⟨before, rfl, hbefore⟩ := h
  exact ⟨before ++ a, (List.append_assoc _ _ _).symm, ha.append_left hbefore⟩

/-- Of two places one is further on. -/
theorem Cut.exists_append (hs : Cut source s) (ht : Cut source t) (h : s.length ≤ t.length) :
    ∃ u, t = u ++ s ∧ lineFeeds t = lineFeeds u ++ lineFeeds s := by
  obtain ⟨before, hsource, hseam⟩ := hs
  obtain ⟨before', hsource', -⟩ := ht
  obtain ⟨u, rfl⟩ := List.suffix_of_suffix_length_le ⟨before, hsource.symm⟩
    ⟨before', hsource'.symm⟩ h
  rw [hsource', ← List.append_assoc] at hsource
  obtain rfl := List.append_cancel_right hsource
  exact ⟨u, rfl, lineFeeds_append hseam.right⟩

/-- **Places are in the same order in both texts.** -/
theorem Cut.length_lt_iff (hs : Cut source s) (ht : Cut source t) :
    (lineFeeds s).length < (lineFeeds t).length ↔ s.length < t.length := by
  constructor
  · intro h
    by_contra hle
    obtain ⟨u, -, hu⟩ := ht.exists_append hs (not_lt.1 hle)
    rw [hu, List.length_append] at h
    omega
  · intro h
    obtain ⟨u, rfl, hu⟩ := hs.exists_append ht h.le
    have hne : u ≠ [] := by
      rintro rfl
      exact absurd h (by simp)
    have hpos := List.length_pos_iff.2 (lineFeeds_ne_nil hne)
    rw [hu, List.length_append]
    omega

theorem Cut.length_eq_iff (hs : Cut source s) (ht : Cut source t) :
    (lineFeeds s).length = (lineFeeds t).length ↔ s.length = t.length := by
  have hlt := hs.length_lt_iff ht
  have hgt := ht.length_lt_iff hs
  omega

/-- **Offsets in a text and in the text with line feeds correspond**: what stands before the one is,
with line feeds, what stands before the other, and no line end is cut. -/
def SamePlace (source : List Char) (k k' : Nat) : Prop :=
  ∃ before after, source = before ++ after ∧ Seam before after ∧ k = byteLength before ∧
    k' = byteLength (lineFeeds before)

/-- A place inside a stretch is one in the whole text. -/
theorem SamePlace.within {before after : List Char} {k k' : Nat} (h : SamePlace s k k')
    (hbefore : Seam before (s ++ after)) (hs : Seam s after) :
    SamePlace (before ++ (s ++ after)) (byteLength before + k)
      (byteLength (lineFeeds before) + k') := by
  obtain ⟨a, b, rfl, hab, rfl, rfl⟩ := h
  have hafter : Seam a (b ++ after) := by
    by_cases hb : b = []
    · rw [hb, List.append_nil] at hs
      rwa [hb, List.nil_append]
    · rwa [Seam, List.head?_append_of_ne_nil _ hb]
  rw [List.append_assoc] at hbefore ⊢
  refine ⟨before ++ a, b ++ after, (List.append_assoc _ _ _).symm, hafter.append_left hbefore,
    (byteLength_append _ _).symm, ?_⟩
  rw [lineFeeds_append hbefore.left, byteLength_append]

/-! ## Words -/

section Words

variable (hw : ∀ c ∈ w, isLineBreak c = false)

include hw

/-- **A word without line breaks stands at the front of both texts**, before what corresponds. -/
theorem lineFeeds_eq_append_iff :
    lineFeeds s = w ++ t ↔ ∃ rest, s = w ++ rest ∧ t = lineFeeds rest := by
  induction w generalizing s with
  | nil => simp [eq_comm]
  | cons c w ih =>
    obtain ⟨hc, hw⟩ := List.forall_mem_cons.1 hw
    induction s using lineFeeds_cases with
    | nil => simp
    | cons d s hd _ =>
      rw [lineFeeds_cons hd, List.cons_append, List.cons.injEq, ih hw]
      simp only [List.cons_append, List.cons.injEq]
      constructor
      · rintro ⟨rfl, rest, rfl, rfl⟩
        exact ⟨rest, ⟨rfl, rfl⟩, rfl⟩
      · rintro ⟨rest, ⟨rfl, rfl⟩, rfl⟩
        exact ⟨rfl, rest, rfl, rfl⟩
    | lineEnd s u h _ =>
      rw [lineFeeds_of_dropLineEnd? h]
      constructor
      · rintro hfeed
        obtain rfl : '\n' = c := (List.cons.inj hfeed).1
        cases hc
      · rintro ⟨rest, rfl, -⟩
        have hstop : AtLineEnd (c :: (w ++ rest)) := atLineEnd_of_dropLineEnd? h
        simp [AtLineEnd, hc] at hstop

theorem isPrefixOf_lineFeeds (s : List Char) : w.isPrefixOf (lineFeeds s) = w.isPrefixOf s := by
  rw [Bool.eq_iff_iff, List.isPrefixOf_iff_prefix, List.isPrefixOf_iff_prefix]
  constructor
  · rintro ⟨t, ht⟩
    obtain ⟨rest, rfl, -⟩ := (lineFeeds_eq_append_iff hw).1 ht.symm
    exact List.prefix_append w rest
  · rintro ⟨rest, rfl⟩
    exact ⟨_, ((lineFeeds_eq_append_iff hw).2 ⟨rest, rfl, rfl⟩).symm⟩

/-- No word without line breaks stands where a line ends. -/
theorem offsetOf?_of_dropLineEnd? (hne : w ≠ []) (h : dropLineEnd? (a ++ t) = some t) :
    offsetOf? w (a ++ t) = (offsetOf? w t).map (byteLength a + ·) := by
  have hcons {c : Char} (hc : isLineBreak c) (s : List Char) :
      offsetOf? w (c :: s) = (offsetOf? w s).map (c.utf8Size + ·) := by
    rw [offsetOf?, if_neg]
    rw [List.isPrefixOf_iff_prefix]
    rintro ⟨rest, hrest⟩
    obtain ⟨d, w, rfl⟩ := List.exists_cons_of_ne_nil hne
    obtain rfl : d = c := (List.cons.inj hrest).1
    rw [hw d List.mem_cons_self] at hc
    cases hc
  obtain ⟨brk, hbrk, hcases⟩ := dropLineEnd?_eq_some_iff.1 h
  obtain rfl := List.append_cancel_right hbrk
  rcases hcases with rfl | rfl | ⟨rfl, -⟩
  · rw [List.cons_append, hcons rfl, List.singleton_append, hcons rfl, Option.map_map]
    exact congrArg (Option.map · _) (funext fun k => (Nat.add_assoc _ _ _).symm)
  · rw [List.singleton_append, hcons rfl]
    rfl
  · rw [List.singleton_append, hcons rfl]
    rfl

/-- **A word without line breaks is found at places that correspond**, or in neither text. -/
theorem offsetOf?_lineFeeds (hne : w ≠ []) (s : List Char) :
    offsetOf? w s = none ∧ offsetOf? w (lineFeeds s) = none ∨
      ∃ k k', offsetOf? w s = some k ∧ offsetOf? w (lineFeeds s) = some k' ∧ SamePlace s k k' := by
  induction s using lineFeeds_cases with
  | nil => exact .inl (by simp [offsetOf?, hne])
  | cons c s hc ih =>
    by_cases hfront : w.isPrefixOf (c :: s)
    case pos =>
      have hfront' : w.isPrefixOf (lineFeeds (c :: s)) := by rwa [isPrefixOf_lineFeeds hw]
      rw [lineFeeds_cons hc] at hfront' ⊢
      exact .inr ⟨0, 0, by rw [offsetOf?, if_pos hfront], by rw [offsetOf?, if_pos hfront'],
        [], c :: s, rfl, seam_nil_left _, rfl, rfl⟩
    case neg =>
      have hfront' : ¬ w.isPrefixOf (lineFeeds (c :: s)) := by rwa [isPrefixOf_lineFeeds hw]
      rw [lineFeeds_cons hc] at hfront' ⊢
      rw [offsetOf?, offsetOf?, if_neg hfront, if_neg hfront']
      rcases ih with ⟨hs, hs'⟩ | ⟨k, k', hs, hs', a, b, rfl, hseam, rfl, rfl⟩
      · exact .inl (by rw [hs, hs']; exact ⟨rfl, rfl⟩)
      · have hc' := seam_of_forall (List.forall_mem_singleton.2 hc) (a ++ b)
        rw [hs, hs']
        refine .inr ⟨_, _, rfl, rfl, c :: a, b, rfl, hseam.append_left hc', rfl, ?_⟩
        rw [lineFeeds_cons hc]
        rfl
  | lineEnd s t h ih =>
    obtain ⟨brk, rfl, -⟩ := dropLineEnd?_eq_some_iff.1 h
    have hfeed : dropLineEnd? (['\n'] ++ lineFeeds t) = some (lineFeeds t) := rfl
    rw [lineFeeds_of_dropLineEnd? h, ← List.singleton_append, offsetOf?_of_dropLineEnd? hw hne h,
      offsetOf?_of_dropLineEnd? hw hne hfeed]
    rcases ih with ⟨hs, hs'⟩ | ⟨k, k', hs, hs', a, b, rfl, hseam, rfl, rfl⟩
    · exact .inl (by rw [hs, hs']; exact ⟨rfl, rfl⟩)
    · obtain ⟨brk', hbrk', hdrop⟩ := exists_dropLineEnd?_of_append h
      obtain rfl := List.append_cancel_right hbrk'
      rw [hs, hs']
      refine .inr ⟨_, _, rfl, rfl, brk ++ a, b, (List.append_assoc _ _ _).symm,
        hseam.append_left (seam_of_dropLineEnd? h), (byteLength_append _ _).symm, ?_⟩
      rw [lineFeeds_of_dropLineEnd? hdrop]
      rfl

end Words

end SceneText
