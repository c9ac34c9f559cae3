import SceneText.Proofs.Grammar.Firm
import SceneText.Proofs.Grammar.Laws

/-!
# Proofs/Grammar/Fork — what a match owes to the text behind a line break

A `Fork` is a line break with two ways to go on behind it.  A pattern agrees on two texts that fork
(`Fork.Agree`) if it fails on both, with the same notes, or takes the same from both, unless it gets
behind the line break: then it notes something there or leaves a text there.  Failures noted before
the line break do not depend on what stands behind it (`Fork.PartsRecord.foldl`).

A sequence agrees if its second part notes its failures (`Pattern.Vocal`) or its first takes no line
break (`Pattern.InLine`): for a failure behind the line break must not go unnoticed.
-/

namespace SceneText

/-- **Two ways for a text to go on** behind a line break. -/
structure Fork where
  brk : Char
  isLineBreak_brk : isLineBreak brk
  left : List Char
  right : List Char

variable {s s' t t' : List Char} {f : Forest} {n n' : Note} {ns ns' : List Note} {r : Rule}
  {p q : Pattern} {k : Fork}

namespace Fork

/-! ## Texts that fork -/

/-- Two texts are the same up to the line break, and part behind it. -/
def Parts (k : Fork) (s s' : List Char) : Prop :=
  ∃ w, s = w ++ k.brk :: k.left ∧ s' = w ++ k.brk :: k.right

/-- The same rule has failed at places in two texts that fork. -/
def PartsNote (k : Fork) (n n' : Note) : Prop := n'.rule = n.rule ∧ k.Parts n.rest n'.rest

/-- The same rules have been recorded at places in two texts that fork. -/
def PartsRecord (k : Fork) (far far' : Furthest) : Prop :=
  far'.rules = far.rules ∧ k.Parts far.rest far'.rest

theorem Parts.beginsAs (h : k.Parts t t') : BeginsAs t' t := by
  obtain ⟨w, rfl, rfl⟩ := h
  cases w <;> exact fun _ h => h

theorem Parts.lt_length (h : k.Parts s s') : k.left.length < s.length := by
  obtain ⟨w, rfl, -⟩ := h
  simp only [List.length_append, List.length_cons]
  omega

/-- Which of two places is further does not depend on how the text goes on. -/
theorem Parts.length_lt_iff (hs : k.Parts s s') (ht : k.Parts t t') :
    t'.length < s'.length ↔ t.length < s.length := by
  obtain ⟨v, rfl, rfl⟩ := hs
  obtain ⟨w, rfl, rfl⟩ := ht
  simp only [List.length_append, List.length_cons]
  omega

/-- What leaves a text behind the line break takes the line break. -/
theorem Parts.exists_brk_of_le (hs : k.Parts s s') {u : List Char} (h : s = u ++ t)
    (ht : t.length ≤ k.left.length) : ∃ w a, u = w ++ k.brk :: a := by
  obtain ⟨w, rfl, -⟩ := hs
  rcases List.append_eq_append_iff.1 h with ⟨a, rfl, ha⟩ | ⟨a, -, rfl⟩
  · cases a with
    | nil =>
      rw [List.nil_append] at ha
      rw [← ha, List.length_cons] at ht
      omega
    | cons c a =>
      rw [List.cons_append, List.cons.injEq] at ha
      exact ⟨w, a, by rw [ha.1]⟩
  · simp only [List.length_append, List.length_cons] at ht
    omega

/-- **What does not leave a text behind the line break** leaves texts that fork. -/
theorem Parts.exists_of_append {u : List Char} (hs : k.Parts (u ++ t) s')
    (ht : k.left.length < t.length) : ∃ t', s' = u ++ t' ∧ k.Parts t t' := by
  obtain ⟨w, hw, rfl⟩ := hs
  rcases List.append_eq_append_iff.1 hw with ⟨a, rfl, rfl⟩ | ⟨a, rfl, ha⟩
  · exact ⟨_, List.append_assoc _ _ _, a, rfl, rfl⟩
  · cases a with
    | nil => exact ⟨k.brk :: k.right, by simp, [], by simpa using ha.symm, rfl⟩
    | cons c a =>
      have hlength := congrArg List.length ha
      simp only [List.length_append, List.length_cons] at hlength
      omega

/-! ## Notes and records -/

theorem exists_note_iff (hns : List.Forall₂ k.PartsNote ns ns') (hs : k.Parts s s') :
    (∃ n ∈ ns', n.rest.length < s'.length) ↔ ∃ n ∈ ns, n.rest.length < s.length := by
  induction hns with
  | nil => simp
  | cons hn _ ih => simp only [List.exists_mem_cons_iff, hs.length_lt_iff hn.2, ih]

/-- A rule settles for notes that correspond. -/
theorem Parts.settle (hs : k.Parts s s') (hns : List.Forall₂ k.PartsNote ns ns') :
    List.Forall₂ k.PartsNote (settle r s ns) (settle r s' ns') := by
  simp only [SceneText.settle, exists_note_iff hns hs, hns.length_eq]
  split
  · exact hns
  · exact .cons ⟨rfl, hs⟩ .nil

theorem PartsRecord.enter {far far' : Furthest} (hfar : k.PartsRecord far far')
    (hn : k.PartsNote n n') : k.PartsRecord (far.enter n) (far'.enter n') := by
  obtain ⟨hrules, hrest⟩ := hfar
  obtain ⟨hrule, hplace⟩ := hn
  have hlt := hrest.length_lt_iff hplace
  have hgt := hplace.length_lt_iff hrest
  rcases lt_trichotomy n.rest.length far.rest.length with h | h | h
  · rw [Furthest.enter_of_lt h, Furthest.enter_of_lt (hlt.2 h)]
    exact ⟨by rw [hrule], hplace⟩
  · have h' : n'.rest.length = far'.rest.length := by omega
    rw [Furthest.enter_of_eq h, Furthest.enter_of_eq h']
    exact ⟨by rw [hrules, hrule], hrest⟩
  · rw [Furthest.enter_of_gt h, Furthest.enter_of_gt (hgt.2 h)]
    exact ⟨hrules, hrest⟩

/-- **Notes that correspond leave records that do.** -/
theorem PartsRecord.foldl {far far' : Furthest} (hns : List.Forall₂ k.PartsNote ns ns')
    (hfar : k.PartsRecord far far') :
    k.PartsRecord (ns.foldl Furthest.enter far) (ns'.foldl Furthest.enter far') := by
  induction hns generalizing far far' with
  | nil => exact hfar
  | cons hn _ ih => exact ih (hfar.enter hn)

/-! ## Patterns that agree -/

/-- **A pattern agrees on two texts**: it fails on both or takes the same from both, with the same
notes, unless it notes something behind the line break or leaves a text there. -/
inductive Agree (k : Fork) (p : Pattern) (s s' : List Char) : Prop
  | noted {n : Note} : n ∈ p.notes s → n.rest.length ≤ k.left.length → Agree k p s s'
  | taken {f : Forest} {t : List Char} : p.parse s = some (f, t) → t.length ≤ k.left.length →
    Agree k p s s'
  | fails : p.parse s = none → p.parse s' = none →
    List.Forall₂ k.PartsNote (p.notes s) (p.notes s') → Agree k p s s'
  | takes {f : Forest} {t t' : List Char} : p.parse s = some (f, t) → p.parse s' = some (f, t') →
    k.Parts t t' → List.Forall₂ k.PartsNote (p.notes s) (p.notes s') → Agree k p s s'

end Fork

namespace Pattern

/-- A failure is noted. -/
def Vocal (p : Pattern) : Prop := ∀ ⦃s⦄, p.parse s = none → ∃ n, n ∈ p.notes s

/-- A match takes no line break. -/
def InLine (p : Pattern) : Prop :=
  ∀ ⦃s f t⦄, p.parse s = some (f, t) → ∀ c ∈ f.toList, isLineBreak c = false

/-- **A pattern is local** if it agrees on texts that fork. -/
def Local (p : Pattern) : Prop := ∀ ⦃k : Fork⦄ ⦃s s'⦄, k.Parts s s' → k.Agree p s s'

theorem vocal_rule (r : Rule) (p : Pattern) : (rule r p).Vocal := fun _ h =>
  exists_mem_notes_rule (parse_rule_eq_none_iff.1 h)

theorem Total.vocal (hp : p.Total) : p.Vocal := fun s h => by
  have hsome := hp s
  rw [h] at hsome
  cases hsome

theorem vocal_lineEnds : (oneOrMore lineEnd).Vocal := fun s h => by
  have hfirst : lineEnd.parse s = none := Option.eq_none_iff_forall_ne_some.2 fun ⟨f, t⟩ hf => by
    obtain ⟨g, rest, hg⟩ := exists_parse_many lineEnd t
    rw [oneOrMore, parse_append_iff.2 ⟨f, t, g, hf, hg, rfl⟩] at h
    cases h
  rw [oneOrMore, notes_append_of_none hfirst]
  exact vocal_rule _ _ hfirst

theorem InLine.append (hp : p.InLine) (hq : q.InLine) : (p ++ q).InLine := by
  intro s f t h
  obtain ⟨f₁, mid, f₂, h₁, h₂, rfl⟩ := parse_append_iff.1 h
  rw [Forest.toList_append, List.forall_mem_append]
  exact ⟨hp h₁, hq h₂⟩

theorem inLine_word {w : List Char} (hw : ∀ c ∈ w, isLineBreak c = false) : (word w).InLine := by
  intro s f t h
  obtain ⟨-, rfl⟩ := parse_word_iff.1 h
  simpa [Forest.toList] using hw

theorem inLine_blanks : blanks.InLine := by
  intro s f t h
  obtain ⟨b, -, hb, -, rfl⟩ := parse_blanks_iff.1 h
  simpa using hb.isLineBreak

theorem inLine_gap : gap.InLine := by
  intro s f t h
  obtain ⟨b, -, hb, -, rfl⟩ := parse_gap_iff.1 h
  simpa using IsBlankLine.isLineBreak hb.2

theorem inLine_token {is : Char → Bool} (his : InWords is) (r : Rule) : (token r is).InLine := by
  intro s f t h
  obtain ⟨w, -, hw, -, rfl⟩ := parse_token_iff.1 h
  simpa [Forest.toList] using fun c hc => (his c (hw.2 c hc)).2

/-- What takes no line break leaves no text behind one. -/
theorem InLine.lt_length (hp : p.InLine) (hs : k.Parts s s') (h : p.parse s = some (f, t)) :
    k.left.length < t.length := by
  by_contra hle
  obtain ⟨w, a, hf⟩ := hs.exists_brk_of_le (toList_parse h).symm (Nat.le_of_not_lt hle)
  have hline := hp h k.brk (hf ▸ by simp)
  rw [k.isLineBreak_brk] at hline
  cases hline

/-! ## Single patterns -/

theorem local_char (is : Char → Bool) : (char is).Local := by
  rintro k _ _ ⟨w, rfl, rfl⟩
  cases w with
  | nil =>
    by_cases hbrk : is k.brk
    · exact .taken (parse_char_iff.2 ⟨k.brk, hbrk, rfl, rfl⟩) le_rfl
    · have hnone (z : List Char) : (char is).parse (k.brk :: z) = none :=
        parse_char_eq_none_iff.2 (stops_cons.2 (by simpa using hbrk))
      exact .fails (hnone _) (hnone _) .nil
  | cons c w =>
    by_cases hc : is c
    · have hsome (z : List Char) : (char is).parse (c :: z) = some (.text [c] .nil, z) :=
        parse_char_iff.2 ⟨c, hc, rfl, rfl⟩
      exact .takes (hsome _) (hsome _) ⟨w, rfl, rfl⟩ .nil
    · have hnone (z : List Char) : (char is).parse (c :: z) = none :=
        parse_char_eq_none_iff.2 (stops_cons.2 (by simpa using hc))
      exact .fails (hnone _) (hnone _) .nil

/-- A word without line breaks stands before the line break, if it stands in front. -/
theorem prefix_append_brk_iff {u w : List Char} (hu : ∀ c ∈ u, isLineBreak c = false)
    (z : List Char) : u <+: w ++ k.brk :: z ↔ u <+: w := by
  refine ⟨?_, fun h => h.trans (List.prefix_append w _)⟩
  rintro ⟨t, ht⟩
  rcases List.append_eq_append_iff.1 ht with ⟨a, rfl, -⟩ | ⟨a, rfl, ha⟩
  · exact List.prefix_append u a
  · cases a with
    | nil => simp
    | cons c a =>
      rw [List.cons_append, List.cons.injEq] at ha
      have hline := hu c (by simp)
      rw [← ha.1, k.isLineBreak_brk] at hline
      cases hline

theorem local_word {u : List Char} (hu : ∀ c ∈ u, isLineBreak c = false) : (word u).Local := by
  rintro k _ _ ⟨w, rfl, rfl⟩
  by_cases h : u <+: w
  · obtain ⟨a, rfl⟩ := h
    have hsome (z : List Char) : (word u).parse ((u ++ a) ++ k.brk :: z) =
        some (.text u .nil, a ++ k.brk :: z) :=
      parse_word_iff.2 ⟨List.append_assoc _ _ _, rfl⟩
    exact .takes (hsome _) (hsome _) ⟨a, rfl, rfl⟩ .nil
  · have hnone (z : List Char) : (word u).parse (w ++ k.brk :: z) = none :=
      parse_word_eq_none_iff.2 (mt (prefix_append_brk_iff hu z).1 h)
    exact .fails (hnone _) (hnone _) .nil

theorem local_atEnd : atEnd.Local := by
  rintro k _ _ ⟨w, rfl, rfl⟩
  exact .fails (by simp [Pattern.parse]) (by simp [Pattern.parse]) .nil

theorem local_newline : newline.Local := by
  intro k s s' hs
  have hnotes (s : List Char) : newline.notes s = [] := notes_eq_nil rfl s
  cases h : newline.parse s with
  | none =>
    refine .fails h ?_ (by rw [hnotes, hnotes]; exact .nil)
    exact quits_newline h hs.beginsAs
  | some m =>
    by_cases hle : m.2.length ≤ k.left.length
    · exact .taken h hle
    · have hsplit := toList_parse h
      obtain ⟨t', rfl, ht⟩ := (hsplit ▸ hs).exists_of_append (Nat.lt_of_not_le hle)
      exact .takes h (firm_newline h ht.beginsAs) ht (by rw [hnotes, hnotes]; exact .nil)

theorem local_inLine : (absent newline ++ char fun _ => true).Local := by
  have hparse (s : List Char) : (absent newline ++ char fun _ => true).parse s =
      (char (!isLineBreak ·)).parse s :=
    Option.ext fun _ => parse_inLine_iff.trans parse_char_iff.symm
  have hnotes (s : List Char) : (absent newline ++ char fun _ => true).notes s = [] :=
    notes_eq_nil rfl s
  intro k s s' hs
  cases local_char (!isLineBreak ·) hs with
  | noted hn _ => cases hn
  | taken h hle => exact .taken ((hparse s).trans h) hle
  | fails h h' _ =>
    exact .fails ((hparse s).trans h) ((hparse s').trans h') (by rw [hnotes, hnotes]; exact .nil)
  | takes h h' ht _ =>
    exact .takes ((hparse s).trans h) ((hparse s').trans h') ht
      (by rw [hnotes, hnotes]; exact .nil)

/-- What looks at one line only is missed in both texts or in none. -/
theorem Local.absent (hp : p.Local) (hline : p.InLine) (hrules : p.rules = []) :
    (absent p).Local := by
  intro k s s' hs
  cases hp hs with
  | noted hn _ =>
    rw [notes_eq_nil hrules] at hn
    cases hn
  | taken h hle => exact absurd (hline.lt_length hs h) hle.not_gt
  | fails h h' _ =>
    exact .takes (parse_absent_iff.2 ⟨h, rfl, rfl⟩) (parse_absent_iff.2 ⟨h', rfl, rfl⟩) hs .nil
  | takes h h' _ _ =>
    exact .fails (by simp [Pattern.parse, h]) (by simp [Pattern.parse, h']) .nil

end Pattern

/-! ## Patterns made of others -/

namespace Pattern

theorem mem_notes_append_left (h : n ∈ p.notes s) : n ∈ (p ++ q).notes s := by
  cases hp : p.parse s with
  | none => rwa [notes_append_of_none hp]
  | some m =>
    rw [notes_append_of_some hp]
    exact List.mem_append_left _ h

theorem mem_notes_append_right (hp : p.parse s = some (f, t)) (h : n ∈ q.notes t) :
    n ∈ (p ++ q).notes s := by
  rw [notes_append_of_some hp]
  exact List.mem_append_right _ h

theorem mem_notes_orElse_left (h : n ∈ p.notes s) : n ∈ (p <|> q).notes s := by
  cases hp : p.parse s with
  | none =>
    rw [notes_orElse_of_none hp]
    exact List.mem_append_left _ h
  | some m => rwa [notes_orElse_of_some hp]

end Pattern

namespace Fork.Agree

open Pattern

theorem append (hp : k.Agree p s s')
    (hq : ∀ f t t', p.parse s = some (f, t) → k.Parts t t' → k.Agree q t t')
    (hpast : ∀ f t, p.parse s = some (f, t) → t.length ≤ k.left.length → q.parse t = none →
      ∃ n, n ∈ q.notes t) : k.Agree (p ++ q) s s' := by
  cases hp with
  | noted hn hle => exact .noted (mem_notes_append_left hn) hle
  | @taken f t h hle =>
    cases hqt : q.parse t with
    | none =>
      obtain ⟨n, hn⟩ := hpast f t h hle hqt
      exact .noted (mem_notes_append_right h hn) ((suffix_of_mem_notes hn).length_le.trans hle)
    | some m =>
      exact .taken (parse_append_iff.2 ⟨f, t, m.1, h, hqt, rfl⟩)
        ((suffix_of_parse hqt).length_le.trans hle)
  | fails h h' hnotes =>
    refine .fails (parse_append_of_none h) (parse_append_of_none h') ?_
    rwa [notes_append_of_none h, notes_append_of_none h']
  | @takes f t t' h h' ht hnotes =>
    cases hq f t t' h ht with
    | noted hn hle => exact .noted (mem_notes_append_right h hn) hle
    | taken hqt hle => exact .taken (parse_append_iff.2 ⟨f, t, _, h, hqt, rfl⟩) hle
    | fails hqt hqt' hmore =>
      refine .fails (parse_append_eq_none_iff.2 fun g u hg => ?_)
        (parse_append_eq_none_iff.2 fun g u hg => ?_) ?_
      · rw [h] at hg
        cases hg
        exact hqt
      · rw [h'] at hg
        cases hg
        exact hqt'
      · rw [notes_append_of_some h, notes_append_of_some h']
        exact List.rel_append hnotes hmore
    | takes hqt hqt' hu hmore =>
      refine .takes (parse_append_iff.2 ⟨f, t, _, h, hqt, rfl⟩)
        (parse_append_iff.2 ⟨f, t', _, h', hqt', rfl⟩) hu ?_
      rw [notes_append_of_some h, notes_append_of_some h']
      exact List.rel_append hnotes hmore

/-- What is local and notes its failures may follow anything. -/
theorem append_vocal (hp : k.Agree p s s') (hq : q.Local) (hvocal : q.Vocal) :
    k.Agree (p ++ q) s s' :=
  hp.append (fun _ _ _ _ ht => hq ht) fun _ _ _ _ hnone => hvocal hnone

theorem orElse (hp : k.Agree p s s') (hq : k.Agree q s s') : k.Agree (p <|> q) s s' := by
  cases hp with
  | noted hn hle => exact .noted (mem_notes_orElse_left hn) hle
  | taken h hle => exact .taken (parse_orElse_iff.2 (.inl h)) hle
  | takes h h' ht hnotes =>
    refine .takes (parse_orElse_iff.2 (.inl h)) (parse_orElse_iff.2 (.inl h')) ht ?_
    rwa [notes_orElse_of_some h, notes_orElse_of_some h']
  | fails h h' hnotes =>
    cases hq with
    | noted hn hle =>
      refine .noted ?_ hle
      rw [notes_orElse_of_none h]
      exact List.mem_append_right _ hn
    | taken hq hle => exact .taken (parse_orElse_iff.2 (.inr ⟨h, hq⟩)) hle
    | fails hq hq' hmore =>
      refine .fails (parse_orElse_eq_none_iff.2 ⟨h, hq⟩) (parse_orElse_eq_none_iff.2 ⟨h', hq'⟩) ?_
      rw [notes_orElse_of_none h, notes_orElse_of_none h']
      exact List.rel_append hnotes hmore
    | takes hq hq' ht hmore =>
      refine .takes (parse_orElse_iff.2 (.inr ⟨h, hq⟩)) (parse_orElse_iff.2 (.inr ⟨h', hq'⟩)) ht ?_
      rw [notes_orElse_of_none h, notes_orElse_of_none h']
      exact List.rel_append hnotes hmore

theorem opt (hp : k.Agree p s s') (hs : k.Parts s s') : k.Agree (.opt p) s s' := by
  cases hp with
  | noted hn hle => exact .noted hn hle
  | taken h hle => exact .taken (parse_opt_iff.2 (.inl h)) hle
  | fails h h' hnotes =>
    exact .takes (parse_opt_iff.2 (.inr ⟨h, rfl, rfl⟩)) (parse_opt_iff.2 (.inr ⟨h', rfl, rfl⟩)) hs
      hnotes
  | takes h h' ht hnotes =>
    exact .takes (parse_opt_iff.2 (.inl h)) (parse_opt_iff.2 (.inl h')) ht hnotes

theorem rule (hp : k.Agree p s s') (hs : k.Parts s s') : k.Agree (.rule r p) s s' := by
  cases hp with
  | @noted n hn hle =>
    refine .noted (n := n) ?_ hle
    cases h : p.parse s with
    | none => rwa [notes_rule_of_further h hn (hle.trans_lt hs.lt_length)]
    | some m => rwa [notes_rule_of_some h]
  | taken h hle => exact .taken (parse_rule_iff.2 ⟨_, h, rfl⟩) hle
  | fails h h' hnotes =>
    refine .fails (parse_rule_eq_none_iff.2 h) (parse_rule_eq_none_iff.2 h') ?_
    rw [notes_rule_of_none h, notes_rule_of_none h']
    exact hs.settle hnotes
  | takes h h' ht hnotes =>
    refine .takes (parse_rule_iff.2 ⟨_, h, rfl⟩) (parse_rule_iff.2 ⟨_, h', rfl⟩) ht ?_
    rwa [notes_rule_of_some h, notes_rule_of_some h']

/-- **A repetition agrees** where its turns do, from the first to the one that fails. -/
theorem many (hproductive : p.productive) (h : Repeats p s f t)
    (hp : ∀ u u', t <:+ u → k.Parts u u' → k.Agree p u u') (hs : k.Parts s s') :
    k.Agree (.many p) s s' := by
  induction h generalizing s' with
  | stop hnone =>
    have hturn := hp _ _ List.suffix_rfl hs
    cases hturn with
    | noted hn hle => exact .noted (notes_many_of_none hnone ▸ hn) hle
    | taken h => cases hnone.symm.trans h
    | fails _ hnone' hnotes =>
      refine .takes ((parse_many_iff hproductive).2 (.stop hnone))
        ((parse_many_iff hproductive).2 (.stop hnone')) hs ?_
      rwa [notes_many_of_none hnone, notes_many_of_none hnone']
    | takes h => cases hnone.symm.trans h
  | @step s mid t f g hstep hmore ih =>
    have hmore' := (parse_many_iff hproductive).2 hmore
    have hparse := (parse_many_iff hproductive).2 (.step hstep hmore)
    have hturn := hp _ _ ((suffix_of_parse hmore').trans (suffix_of_parse hstep)) hs
    cases hturn with
    | noted hn hle =>
      refine .noted ?_ hle
      rw [notes_many_of_some hproductive hstep]
      exact List.mem_append_left _ hn
    | taken h hle =>
      cases hstep.symm.trans h
      exact .taken hparse ((suffix_of_parse hmore').length_le.trans hle)
    | fails h => cases hstep.symm.trans h
    | @takes _ _ mid' h h' hmid hnotes =>
      cases hstep.symm.trans h
      cases ih hp hmid with
      | noted hn hle =>
        refine .noted ?_ hle
        rw [notes_many_of_some hproductive hstep]
        exact List.mem_append_right _ hn
      | taken hmany hle =>
        cases hmore'.symm.trans hmany
        exact .taken hparse hle
      | fails hmany => cases hmore'.symm.trans hmany
      | takes hmany hmany' ht hrest =>
        cases hmore'.symm.trans hmany
        refine .takes hparse ((parse_many_iff hproductive).2
          (.step h' ((parse_many_iff hproductive).1 hmany'))) ht ?_
        rw [notes_many_of_some hproductive hstep, notes_many_of_some hproductive h']
        exact List.rel_append hnotes hrest

end Fork.Agree

namespace Pattern

/-- **A sequence is local**, if failures of its second part are noted, or its first part takes no
line break. -/
theorem Local.append (hp : p.Local) (hq : q.Local) (h : q.Vocal ∨ p.InLine) :
    (p ++ q).Local := by
  intro k s s' hs
  refine (hp hs).append (fun _ _ _ _ ht => hq ht) fun f t hparse hle hnone => ?_
  rcases h with h | h
  · exact h hnone
  · exact absurd (h.lt_length hs hparse) hle.not_gt

theorem Local.append_rule (hp : p.Local) (hq : (rule r q).Local) : (p ++ rule r q).Local :=
  hp.append hq (.inl (vocal_rule r q))

theorem Local.append_many (hp : p.Local) (hq : (many q).Local) : (p ++ many q).Local :=
  hp.append hq (.inl (total_many q).vocal)

theorem Local.orElse (hp : p.Local) (hq : q.Local) : (p <|> q).Local :=
  fun _ _ _ hs => (hp hs).orElse (hq hs)

theorem Local.opt (hp : p.Local) : (opt p).Local := fun _ _ _ hs => (hp hs).opt hs

theorem Local.rule (hp : p.Local) : (rule r p).Local := fun _ _ _ hs => (hp hs).rule hs

theorem Local.many (hp : p.Local) (hproductive : p.productive) : (many p).Local := by
  intro k s s' hs
  obtain ⟨f, t, h⟩ := exists_parse_many p s
  exact .many hproductive ((parse_many_iff hproductive).1 h) (fun _ _ _ hu => hp hu) hs

/-! ## Blanks, tokens and line ends -/

theorem local_blanks : blanks.Local := (local_char _).many rfl

theorem local_gap : gap.Local := (local_char _).append_many local_blanks

theorem local_token (r : Rule) (is : Char → Bool) : (token r is).Local :=
  ((local_char _).append_many ((local_char _).many rfl)).rule

theorem local_lineEnd : lineEnd.Local := local_newline.rule

theorem local_lineEnds : (oneOrMore lineEnd).Local :=
  local_lineEnd.append_many (local_lineEnd.many rfl)

theorem local_spacing : (many (blank <|> newline)).Local :=
  ((local_char _).orElse local_newline).many rfl

end Pattern

end SceneText
