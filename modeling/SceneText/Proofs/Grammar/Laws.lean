import SceneText.Proofs.Grammar.Notes

/-!
# Proofs/Grammar/Laws — patterns that report the same

The same lists can be nested in a pattern in many ways.  What a pattern tells of a text is its
`Report`: the words and blocks that it marks, what it leaves, and the failures that it notes on the
way.  Sequence, choice and repetition are operations on reports, so patterns that differ in nesting
only can be shown to report the same, by laws as those of regular expressions:

* `report_append_assoc`, `report_opt_append_many`, `report_many_append_many`;
* `report_ahead_append` — a look-ahead at what is taken next tells nothing new;
* `report_rule_append`, `report_rule_of_total`, `report_rule_rule_append` — where the node of a rule
  may end earlier, or need not be.
-/

namespace SceneText

/-! ## Marks -/

/-- A word under its rule, or the place where a block begins. -/
structure Mark where
  rule : Rule
  /-- The word; nothing for a block. -/
  word : List Char
  /-- The text from there on. -/
  rest : List Char
  deriving DecidableEq, Repr

namespace Rule

/-- The rules of words that stand for something. -/
def isWord (r : Rule) : Bool := r == .number || r == .styleName || r == .colorName

/-- The rules of blocks of lines under a header. -/
def isBlock (r : Rule) : Bool := r == .group || r == .shape

/-- The mark of a node, if its rule leaves one. -/
def mark (r : Rule) (inner after : List Char) : List Mark :=
  if r.isWord then [⟨r, inner, after⟩] else if r.isBlock then [⟨r, [], inner ++ after⟩] else []

theorem eq_of_mem_mark {r : Rule} {inner after : List Char} {m : Mark}
    (hm : m ∈ r.mark inner after) : m.rule = r := by
  unfold mark at hm
  split at hm
  · rw [List.mem_singleton.1 hm]
  · split at hm
    · rw [List.mem_singleton.1 hm]
    · cases hm

/-- A block is marked where it begins, wherever it ends. -/
theorem mark_append {r : Rule} (hr : r.isWord = false) (inner more after : List Char) :
    r.mark (inner ++ more) after = r.mark inner (more ++ after) := by
  simp [mark, hr]

end Rule

namespace Forest

/-- **The marks in a match**, in order, if a text follows it. -/
def marks : Forest → List Char → List Mark
  | nil, _ => []
  | text _ next, after => next.marks after
  | node r inner next, after =>
    r.mark inner.toList (next.toList ++ after) ++ inner.marks (next.toList ++ after)
      ++ next.marks after

theorem marks_append (f g : Forest) (after : List Char) :
    (f ++ g).marks after = f.marks (g.toList ++ after) ++ g.marks after := by
  induction f with
  | nil => rfl
  | text s f ih => simpa [marks] using ih
  | node r i f _ ih => simp [marks, ih]

@[simp] theorem marks_run (w after : List Char) : (run w).marks after = [] := by
  induction w with
  | nil => rfl
  | cons c w ih => simpa [marks] using ih

end Forest

/-- **Only rules of the pattern leave marks.** -/
theorem Pattern.rule_mem_of_mem_marks {p : Pattern} {s rest after : List Char} {f : Forest}
    {m : Mark} (h : p.parse s = some (f, rest)) (hm : m ∈ f.marks after) : m.rule ∈ p.rules := by
  induction p generalizing s f rest after m with
  | char is =>
    obtain ⟨c, -, -, rfl⟩ := parse_char_iff.1 h
    cases hm
  | word letters =>
    obtain ⟨-, rfl⟩ := parse_word_iff.1 h
    cases hm
  | atEnd =>
    obtain ⟨-, -, rfl⟩ := parse_atEnd_iff.1 h
    cases hm
  | ahead body _ =>
    obtain ⟨-, rfl, -⟩ := parse_ahead_iff.1 h
    cases hm
  | absent body _ =>
    obtain ⟨-, rfl, -⟩ := parse_absent_iff.1 h
    cases hm
  | seq first second ih₁ ih₂ =>
    obtain ⟨f₁, mid, f₂, h₁, h₂, rfl⟩ := parse_append_iff.1 h
    rw [Forest.marks_append, List.mem_append] at hm
    exact List.mem_append.2 (hm.imp (ih₁ h₁) (ih₂ h₂))
  | alt first second ih₁ ih₂ =>
    exact List.mem_append.2 ((parse_orElse_iff.1 h).imp (ih₁ · hm) fun h => ih₂ h.2 hm)
  | opt body ih =>
    rcases parse_opt_iff.1 h with h | ⟨-, rfl, -⟩
    · exact ih h hm
    · cases hm
  | many body ih =>
    refine forest_of_parse_many (P := fun f => ∀ after, ∀ m ∈ f.marks after, m.rule ∈ body.rules)
      (fun _ _ hm => absurd hm List.not_mem_nil) (fun hf hg after m hm => ?_)
      (fun hturn _ _ hm => ih hturn hm) h after m hm
    rw [Forest.marks_append, List.mem_append] at hm
    exact hm.elim (hf _ m) (hg _ m)
  | rule r body ih =>
    obtain ⟨g, hg, rfl⟩ := parse_rule_iff.1 h
    rw [Forest.marks, List.mem_append, List.mem_append] at hm
    rcases hm with (hm | hm) | hm
    · exact Rule.eq_of_mem_mark hm ▸ List.mem_cons_self
    · exact List.mem_cons_of_mem _ (ih hg hm)
    · cases hm

/-! ## Reports -/

/-- What a pattern tells of a text. -/
@[ext]
structure Report where
  /-- The marks and the text that is left, where the pattern matches. -/
  outcome : Option (List Mark × List Char)
  noted : Set Note

namespace Report

/-- Nothing is taken, and nothing fails. -/
def stay (s : List Char) : Report := ⟨some ([], s), ∅⟩

/-- A report, and one on what it leaves. -/
def andThen (x : Report) (k : List Char → Report) : Report :=
  match x.outcome with
  | none => x
  | some (ms, mid) => ⟨(k mid).outcome.map fun m => (ms ++ m.1, m.2), x.noted ∪ (k mid).noted⟩

/-- A report after other failures. -/
def after (x : Report) (noted : Set Note) : Report := ⟨x.outcome, noted ∪ x.noted⟩

/-- A report, and another where it is a failure. -/
def orElse (x y : Report) : Report :=
  match x.outcome with
  | none => y.after x.noted
  | some _ => x

variable {x y : Report} {k k' : List Char → Report} {ms : List Mark} {s mid : List Char}
  {noted : Set Note}

theorem andThen_none (h : x.outcome = none) : x.andThen k = x := by rw [andThen, h]

theorem orElse_none (h : x.outcome = none) : x.orElse y = y.after x.noted := by rw [orElse, h]

theorem orElse_some (h : x.outcome.isSome) : x.orElse y = x := by
  obtain ⟨m, hm⟩ := Option.isSome_iff_exists.1 h
  rw [orElse, hm]

theorem andThen_some (h : x.outcome = some (ms, mid)) : x.andThen k =
    ⟨(k mid).outcome.map fun m => (ms ++ m.1, m.2), x.noted ∪ (k mid).noted⟩ := by
  rw [andThen, h]

theorem stay_andThen : (stay s).andThen k = k s := by
  ext <;> simp [andThen, stay]

theorem after_andThen : (x.after noted).andThen k = (x.andThen k).after noted := by
  cases h : x.outcome with
  | none => rw [andThen_none h, andThen_none (x := x.after noted) h]
  | some m =>
    rw [andThen_some h, andThen_some (x := x.after noted) h]
    ext <;> simp [after, or_assoc]

theorem after_orElse : (x.after noted).orElse y = (x.orElse y).after noted := by
  cases h : x.outcome with
  | none =>
    rw [orElse_none h, orElse_none (x := x.after noted) h]
    ext <;> simp [after, or_assoc]
  | some m =>
    rw [orElse_some (Option.isSome_of_eq_some h),
      orElse_some (x := x.after noted) (Option.isSome_of_eq_some h)]

theorem isSome_andThen (hx : x.outcome.isSome) (hk : ∀ s, (k s).outcome.isSome) :
    (x.andThen k).outcome.isSome := by
  obtain ⟨⟨ms, mid⟩, hm⟩ := Option.isSome_iff_exists.1 hx
  rw [andThen_some hm]
  simpa using hk mid

theorem andThen_assoc : (x.andThen k).andThen k' = x.andThen fun s => (k s).andThen k' := by
  cases hx : x.outcome with
  | none => rw [andThen_none hx, andThen_none hx, andThen_none hx]
  | some m =>
    rw [andThen_some hx, andThen_some hx]
    cases hk : (k m.2).outcome with
    | none => rw [andThen_none (by simp), andThen_none hk, hk]
    | some m' =>
      have hboth : (⟨(some m').map fun m' => (m.1 ++ m'.1, m'.2), x.noted ∪ (k m.2).noted⟩ :
          Report).outcome = some (m.1 ++ m'.1, m'.2) := rfl
      rw [andThen_some hboth, andThen_some hk]
      ext <;> simp [Function.comp_def, or_assoc]

/-- Steps that agree wherever the report leads are the same. -/
theorem andThen_congr (h : ∀ ms mid, x.outcome = some (ms, mid) → k mid = k' mid) :
    x.andThen k = x.andThen k' := by
  cases hx : x.outcome with
  | none => rw [andThen_none hx, andThen_none hx]
  | some m => rw [andThen_some hx, andThen_some hx, h m.1 m.2 hx]

end Report

namespace Pattern

open Report

variable {p p' q q' a b : Pattern} {r r' : Rule} {s : List Char}

/-- **The report of a pattern on a text.** -/
def report (p : Pattern) (s : List Char) : Report :=
  ⟨(p.parse s).map fun m => (m.1.marks m.2, m.2), {n | n ∈ p.notes s}⟩

theorem outcome_report_eq_none_iff : (p.report s).outcome = none ↔ p.parse s = none :=
  Option.map_eq_none_iff

theorem outcome_report_of_parse {f : Forest} {rest : List Char} (h : p.parse s = some (f, rest)) :
    (p.report s).outcome = some (f.marks rest, rest) := by
  rw [report, h, Option.map_some]

/-- What reports the same leaves the same. -/
theorem exists_parse_of_report_eq {f : Forest} {rest : List Char} (h : p.report = q.report)
    (hp : p.parse s = some (f, rest)) : ∃ f', q.parse s = some (f', rest) := by
  have hq : ((q.parse s).map fun m => (m.1.marks m.2, m.2)) = some (f.marks rest, rest) := by
    have houtcome := congrArg (fun report => (report s).outcome) h
    rw [report, report, hp] at houtcome
    exact houtcome.symm
  obtain ⟨m, hm, hrest⟩ := Option.map_eq_some_iff.1 hq
  exact ⟨m.1, by rw [hm, ← (Prod.mk.inj hrest).2]⟩

/-- A pattern matches wherever it is tried. -/
def Total (p : Pattern) : Prop := ∀ s, (p.parse s).isSome

theorem Total.report (h : p.Total) (s : List Char) : (p.report s).outcome.isSome := by
  simpa [Pattern.report] using h s

theorem total_many (p : Pattern) : (many p).Total := fun _ => rfl

theorem total_opt (p : Pattern) : (opt p).Total := fun _ => rfl

theorem Total.append (hp : p.Total) (hq : q.Total) : (p ++ q).Total := by
  intro s
  obtain ⟨⟨f, mid⟩, h⟩ := Option.isSome_iff_exists.1 (hp s)
  obtain ⟨⟨g, rest⟩, h'⟩ := Option.isSome_iff_exists.1 (hq mid)
  exact Option.isSome_of_eq_some (parse_append_iff.2 ⟨f, mid, g, h, h', rfl⟩)

theorem Total.rule (h : p.Total) : (rule r p).Total := by
  intro s
  simpa [parse] using h s

/-! ## The operations -/

theorem report_append (p q : Pattern) (s : List Char) :
    (p ++ q).report s = (p.report s).andThen q.report := by
  cases hp : p.parse s with
  | none =>
    have hpq : (p ++ q).parse s = none := parse_append_of_none hp
    rw [andThen_none (outcome_report_eq_none_iff.2 hp)]
    simp [report, hp, hpq, notes_append_of_none hp]
  | some m =>
    obtain ⟨f, mid⟩ := m
    rw [andThen_some (outcome_report_of_parse hp)]
    change (seq p q).report s = _
    cases hq : q.parse mid with
    | none => ext <;> simp [report, parse, notes, hp, hq]
    | some m =>
      obtain ⟨g, rest⟩ := m
      have hmid := toList_parse hq
      ext <;> simp [report, parse, notes, hp, hq, Forest.marks_append, hmid]

theorem report_orElse (p q : Pattern) (s : List Char) :
    (p <|> q).report s = (p.report s).orElse (q.report s) := by
  change (alt p q).report s = _
  cases hp : p.parse s with
  | none =>
    rw [orElse_none (outcome_report_eq_none_iff.2 hp)]
    ext <;> simp [report, parse, notes, hp, Report.after]
  | some m =>
    rw [orElse_some (by simp [report, hp])]
    simp [report, parse, notes, hp]

theorem report_opt (p : Pattern) (s : List Char) :
    (opt p).report s = (p.report s).orElse (stay s) := by
  cases hp : p.parse s with
  | none =>
    rw [orElse_none (outcome_report_eq_none_iff.2 hp)]
    ext <;> simp [report, parse, notes, hp, stay, Report.after, Forest.marks]
  | some m =>
    rw [orElse_some (by simp [report, hp])]
    simp [report, parse, notes, hp]

theorem report_ahead_none (h : p.parse s = none) : (ahead p).report s = p.report s := by
  simp [report, parse, notes, h]

theorem report_ahead_some {m : Match} (h : p.parse s = some m) :
    (ahead p).report s = ⟨some ([], s), (p.report s).noted⟩ := by
  simp [report, parse, notes, h, Forest.marks]

/-- **A repetition is a turn and a repetition**, or nothing. -/
theorem report_many (hp : p.productive) (s : List Char) :
    (many p).report s = ((p.report s).andThen (many p).report).orElse (stay s) := by
  cases h : p.parse s with
  | none =>
    rw [andThen_none (outcome_report_eq_none_iff.2 h),
      orElse_none (outcome_report_eq_none_iff.2 h)]
    have hparse := (parse_many_iff hp).2 (.stop h)
    ext <;> simp [report, hparse, notes_many_of_none h, stay, Report.after, Forest.marks]
  | some m =>
    obtain ⟨f, mid⟩ := m
    obtain ⟨g, rest, hmore⟩ := exists_parse_many p mid
    have hparse := (parse_many_iff hp).2 (.step h ((parse_many_iff hp).1 hmore))
    have hmid := toList_parse hmore
    rw [andThen_some (outcome_report_of_parse h),
      orElse_some (by simp [report, hmore])]
    ext <;> simp [report, hparse, notes_many_of_some hp h, hmore, Forest.marks_append, hmid]

/-! ## Laws -/

theorem report_append_congr (h : p.report = p'.report) (h' : q.report = q'.report) :
    (p ++ q).report = (p' ++ q').report := by
  funext s
  rw [report_append, report_append, h, h']

theorem report_opt_congr (h : p.report = p'.report) : (opt p).report = (opt p').report := by
  funext s
  rw [report_opt, report_opt, h]

theorem report_append_assoc (p q q' : Pattern) :
    (p ++ q ++ q').report = (p ++ (q ++ q')).report := by
  funext s
  rw [report_append, report_append, report_append, andThen_assoc]
  exact andThen_congr fun _ _ _ => (report_append _ _ _).symm

/-- What is left after a turn is shorter. -/
theorem length_lt_of_report (hp : p.productive) {ms : List Mark} {mid : List Char}
    (h : (p.report s).outcome = some (ms, mid)) : mid.length < s.length := by
  obtain ⟨⟨f, mid⟩, hparse, heq⟩ := Option.map_eq_some_iff.1 h
  cases heq
  exact length_lt_of_productive hp hparse

theorem report_many_congr (hp : p.productive) (hp' : p'.productive) (h : p.report = p'.report) :
    (many p).report = (many p').report := by
  funext s
  induction hs : s.length using Nat.strongRecOn generalizing s with
  | ind n ih =>
    rw [report_many hp, report_many hp', ← h]
    congr 1
    refine andThen_congr fun ms mid hmid => ih _ ?_ mid rfl
    exact hs ▸ length_lt_of_report hp hmid

theorem report_opt_append_many (hp : p.productive) :
    (opt (p ++ many p)).report = (many p).report := by
  funext s
  rw [report_opt, report_append, report_many hp]

/-- **Turns of one pattern between turns of another** are turns of both. -/
theorem report_many_append_many (ha : a.productive) (hb : b.productive) :
    (many a ++ many (b ++ many a)).report = (many (a <|> b)).report := by
  have hab : (a <|> b).productive := Bool.and_eq_true_iff.2 ⟨ha, hb⟩
  have hba : (b ++ many a).productive := Bool.or_eq_true_iff.2 (.inl hb)
  have htotal : (many a ++ many (b ++ many a)).Total := (total_many a).append (total_many _)
  funext s
  induction hs : s.length using Nat.strongRecOn generalizing s with
  | ind n ih =>
    have hmore {p : Pattern} (hp : p.productive) :
        ((p.report s).andThen fun mid => (many a ++ many (b ++ many a)).report mid) =
          (p.report s).andThen (many (a <|> b)).report :=
      andThen_congr fun ms mid hmid => ih _ (hs ▸ length_lt_of_report hp hmid) mid rfl
    rw [report_append, report_many ha, report_many hab, report_orElse]
    cases h : (a.report s).outcome with
    | none =>
      -- the turns of `b` go on with turns of both, as the rest is shorter
      rw [andThen_none h, orElse_none h, orElse_none h, after_andThen, stay_andThen, after_andThen,
        after_orElse, report_many hba, report_append, andThen_assoc, ← hmore hb]
      simp only [report_append]
    | some m =>
      have hsome : (a.report s).outcome.isSome := Option.isSome_of_eq_some h
      rw [orElse_some (isSome_andThen hsome (total_many a).report), orElse_some hsome,
        orElse_some (isSome_andThen hsome (total_many _).report), andThen_assoc, ← hmore ha]
      exact andThen_congr fun _ _ _ => (report_append _ _ _).symm

/-- **Looking ahead at what is taken next tells nothing new.** -/
theorem report_ahead_append (p q : Pattern) :
    (ahead p ++ (p ++ q)).report = (p ++ q).report := by
  funext s
  rw [report_append, report_append]
  cases h : p.parse s with
  | none =>
    have hnone := outcome_report_eq_none_iff.2 h
    rw [report_ahead_none h, andThen_none hnone, andThen_none hnone]
  | some m =>
    rw [report_ahead_some h, andThen_some rfl, report_append,
      andThen_some (outcome_report_of_parse h)]
    ext <;> simp

/-- **The node of a block may end earlier**, before parts that always match. -/
theorem report_rule_append (hr : r.isWord = false) (hq : q.Total) :
    (rule r (p ++ q)).report = (rule r p ++ q).report := by
  funext s
  rw [report_append]
  cases hp : p.parse s with
  | none =>
    have hpq : (p ++ q).parse s = none := parse_append_of_none hp
    rw [andThen_none (outcome_report_eq_none_iff.2 (parse_rule_eq_none_iff.2 hp))]
    simp [report, parse, notes, hp, hpq, notes_append_of_none hp]
  | some m =>
    obtain ⟨f, mid⟩ := m
    obtain ⟨⟨g, rest⟩, hq⟩ := Option.isSome_iff_exists.1 (hq mid)
    have hpq := parse_append_iff.2 ⟨f, mid, g, hp, hq, rfl⟩
    have hmid := toList_parse hq
    rw [andThen_some (outcome_report_of_parse (parse_rule_iff.2 ⟨f, hp, rfl⟩))]
    ext <;> simp [report, parse, notes, hp, hq, hpq, notes_append_of_some hp, Forest.marks,
      Forest.marks_append, Rule.mark_append hr, Forest.toList, hmid]

/-- The node of a rule without marks need not be, if the rule always matches. -/
theorem report_rule_of_total (hr : r.isWord = false) (hr' : r.isBlock = false) (hp : p.Total) :
    (rule r p).report = p.report := by
  funext s
  obtain ⟨⟨f, mid⟩, h⟩ := Option.isSome_iff_exists.1 (hp s)
  simp [report, parse, notes, h, Forest.marks, Rule.mark, hr, hr', Forest.toList]

/-- **Nor need it be where a rule follows at once** and the rest always matches. -/
theorem report_rule_rule_append (hr : r.isWord = false) (hr' : r.isBlock = false)
    (hq : q.Total) : (rule r (rule r' p ++ q)).report = (rule r' p ++ q).report := by
  rw [report_rule_append hr hq]
  refine report_append_congr (funext fun s => ?_) rfl
  cases h : p.parse s with
  | none =>
    have hsettle : settle r s (settle r' s (p.notes s)) = settle r' s (p.notes s) := by
      by_cases hkeep : (p.notes s).length = 1 ∨ ∃ n ∈ p.notes s, n.rest.length < s.length
      · simp [settle, hkeep]
      · simp [settle, hkeep]
    simp [report, parse, notes, h, hsettle]
  | some m => simp [report, parse, notes, h, Forest.marks, Rule.mark, hr, hr', Forest.toList]

end Pattern

end SceneText
