import Mathlib
import SceneText.Grammar.Pattern
import SceneText.Proofs.Text.Runs

/-!
# Proofs/Grammar/Match — what a pattern takes, constructor by constructor

One equivalence for each way to build a pattern says when it matches, what it leaves and what it
records.  A repetition is a chain of turns that ends where no further turn is possible
(`parse_many_iff`), provided that a turn takes a character at least (`productive`).  Which rules can
stand outermost in a record is read off the pattern (`leaves_of_mem_nodes`).
-/

namespace SceneText

namespace Forest

/-- The record of a run of single characters. -/
def run (w : List Char) : Forest := w.foldr (fun c next => .text [c] next) .nil

@[simp] theorem run_nil : run [] = .nil := rfl

@[simp] theorem run_cons (c : Char) (w : List Char) : run (c :: w) = .text [c] (run w) := rfl

@[simp] theorem toList_run (w : List Char) : (run w).toList = w := by
  induction w with
  | nil => rfl
  | cons c w ih => simp [Forest.toList, ih]

@[simp] theorem nodes_run (w : List Char) (start : Nat) : (run w).nodes start = [] := by
  induction w generalizing start with
  | nil => rfl
  | cons c w ih => simp [nodes, ih]

@[simp] theorem append_nil (f : Forest) : f ++ nil = f := by
  induction f with
  | nil => rfl
  | text s f ih => rw [text_append, ih]
  | node r i f _ ih => rw [node_append, ih]

theorem append_assoc (f g h : Forest) : f ++ g ++ h = f ++ (g ++ h) := by
  induction f with
  | nil => rfl
  | text s f ih => rw [text_append, text_append, text_append, ih]
  | node r i f _ ih => rw [node_append, node_append, node_append, ih]

end Forest

namespace Pattern

variable {p q : Pattern} {s rest : List Char} {f : Forest}

/-! ## One constructor at a time -/

theorem parse_char_iff {is : Char → Bool} :
    (char is).parse s = some (f, rest) ↔ ∃ c, is c ∧ s = c :: rest ∧ f = .text [c] .nil := by
  cases s with
  | nil => simp [parse]
  | cons c s =>
    simp only [parse, Option.ite_none_right_eq_some, Option.some.injEq, Prod.mk.injEq,
      List.cons.injEq]
    constructor
    · rintro ⟨hc, rfl, rfl⟩
      exact ⟨c, hc, ⟨rfl, rfl⟩, rfl⟩
    · rintro ⟨d, hd, ⟨rfl, rfl⟩, rfl⟩
      exact ⟨hd, rfl, rfl⟩

theorem parse_char_eq_none_iff {is : Char → Bool} : (char is).parse s = none ↔ Stops is s := by
  cases s with
  | nil => simp [parse]
  | cons c s => simp [parse]

theorem parse_word_iff {w : List Char} :
    (word w).parse s = some (f, rest) ↔ s = w ++ rest ∧ f = .text w .nil := by
  simp only [parse, Option.map_eq_some_iff, dropWord?_eq_some_iff, Prod.mk.injEq]
  constructor
  · rintro ⟨_, hs, rfl, rfl⟩
    exact ⟨hs, rfl⟩
  · rintro ⟨hs, rfl⟩
    exact ⟨rest, hs, rfl, rfl⟩

theorem parse_word_eq_none_iff {w : List Char} : (word w).parse s = none ↔ ¬ w <+: s := by
  rw [Option.eq_none_iff_forall_ne_some]
  constructor
  · rintro h ⟨rest, rfl⟩
    exact h _ (parse_word_iff.2 ⟨rfl, rfl⟩)
  · rintro h ⟨f, rest⟩ hw
    exact h ⟨rest, (parse_word_iff.1 hw).1.symm⟩

theorem parse_atEnd_iff : atEnd.parse s = some (f, rest) ↔ s = [] ∧ rest = [] ∧ f = .nil := by
  cases s with
  | nil => simp [parse, eq_comm, and_comm]
  | cons c s => simp [parse]

theorem parse_append_iff : (p ++ q).parse s = some (f, rest) ↔
    ∃ f₁ mid f₂, p.parse s = some (f₁, mid) ∧ q.parse mid = some (f₂, rest) ∧ f = f₁ ++ f₂ := by
  change (seq p q).parse s = _ ↔ _
  rw [parse]
  cases hp : p.parse s with
  | none => simp
  | some m =>
    obtain ⟨f₁, mid⟩ := m
    simp only [Option.map_eq_some_iff, Prod.mk.injEq, Option.some.injEq]
    constructor
    · rintro ⟨⟨f₂, _⟩, hq, rfl, rfl⟩
      exact ⟨f₁, mid, f₂, ⟨rfl, rfl⟩, hq, rfl⟩
    · rintro ⟨_, _, f₂, ⟨rfl, rfl⟩, hq, rfl⟩
      exact ⟨(f₂, rest), hq, rfl, rfl⟩

theorem parse_append_eq_none_iff : (p ++ q).parse s = none ↔
    ∀ f mid, p.parse s = some (f, mid) → q.parse mid = none := by
  change (seq p q).parse s = _ ↔ _
  rw [parse]
  cases p.parse s with
  | none => simp
  | some m =>
    constructor
    · rintro h _ _ ⟨⟩
      simpa using h
    · intro h
      simpa using h m.1 m.2 rfl

theorem parse_orElse_iff : (p <|> q).parse s = some (f, rest) ↔
    p.parse s = some (f, rest) ∨ p.parse s = none ∧ q.parse s = some (f, rest) := by
  change (alt p q).parse s = _ ↔ _
  rw [parse, Option.or_eq_some_iff]

theorem parse_orElse_eq_none_iff :
    (p <|> q).parse s = none ↔ p.parse s = none ∧ q.parse s = none := by
  change (alt p q).parse s = _ ↔ _
  rw [parse, Option.or_eq_none_iff]

theorem parse_opt_iff : (opt p).parse s = some (f, rest) ↔
    p.parse s = some (f, rest) ∨ p.parse s = none ∧ f = .nil ∧ rest = s := by
  rw [parse, Option.some.injEq]
  cases p.parse s <;> simp [Prod.ext_iff, eq_comm]

theorem parse_ahead_iff : (ahead p).parse s = some (f, rest) ↔
    (p.parse s).isSome ∧ f = .nil ∧ rest = s := by
  rw [parse, Option.ite_none_right_eq_some, Option.some.injEq, Prod.mk.injEq,
    eq_comm (a := Forest.nil), eq_comm (a := s)]

theorem parse_absent_iff : (absent p).parse s = some (f, rest) ↔
    p.parse s = none ∧ f = .nil ∧ rest = s := by
  rw [parse, Option.ite_none_left_eq_some, Option.some.injEq, Prod.mk.injEq,
    eq_comm (a := Forest.nil), eq_comm (a := s), Bool.not_eq_true, Option.isSome_eq_false_iff,
    Option.isNone_iff_eq_none]

theorem parse_rule_iff {r : Rule} : (rule r p).parse s = some (f, rest) ↔
    ∃ g, p.parse s = some (g, rest) ∧ f = .node r g .nil := by
  simp only [parse, Option.map_eq_some_iff, Prod.mk.injEq]
  constructor
  · rintro ⟨⟨g, _⟩, hp, rfl, rfl⟩
    exact ⟨g, hp, rfl⟩
  · rintro ⟨g, hp, rfl⟩
    exact ⟨(g, rest), hp, rfl, rfl⟩

theorem parse_rule_eq_none_iff {r : Rule} : (rule r p).parse s = none ↔ p.parse s = none := by
  rw [parse, Option.map_eq_none_iff]

/-! ## Repetition -/

/-- A pattern takes a character at least, wherever it matches. -/
def productive : Pattern → Bool
  | char _ => true
  | word letters => !letters.isEmpty
  | atEnd => false
  | seq first second => first.productive || second.productive
  | alt first second => first.productive && second.productive
  | opt _ => false
  | many _ => false
  | ahead _ => false
  | absent _ => false
  | rule _ body => body.productive

theorem length_lt_of_productive (hp : p.productive) (h : p.parse s = some (f, rest)) :
    rest.length < s.length := by
  induction p generalizing s f rest with
  | char is =>
    obtain ⟨c, -, rfl, -⟩ := parse_char_iff.1 h
    simp
  | word letters =>
    obtain ⟨rfl, -⟩ := parse_word_iff.1 h
    cases letters with
    | nil => cases hp
    | cons c w =>
      simp only [List.length_append, List.length_cons]
      omega
  | seq first second ih₁ ih₂ =>
    obtain ⟨f₁, mid, f₂, h₁, h₂, -⟩ := parse_append_iff.1 h
    have hfirst := (suffix_of_parse h₁).length_le
    have hsecond := (suffix_of_parse h₂).length_le
    rcases Bool.or_eq_true_iff.1 hp with hp | hp
    · exact hsecond.trans_lt (ih₁ hp h₁)
    · exact (ih₂ hp h₂).trans_le hfirst
  | alt first second ih₁ ih₂ =>
    obtain ⟨hp₁, hp₂⟩ := Bool.and_eq_true_iff.1 hp
    rcases parse_orElse_iff.1 h with h | ⟨-, h⟩
    · exact ih₁ hp₁ h
    · exact ih₂ hp₂ h
  | rule r body ih =>
    obtain ⟨g, hg, -⟩ := parse_rule_iff.1 h
    exact ih hp hg
  | atEnd => cases hp
  | opt => cases hp
  | many => cases hp
  | ahead => cases hp
  | absent => cases hp

/-- Turns of a pattern, one after the other, up to where no further one is possible. -/
inductive Repeats (p : Pattern) : List Char → Forest → List Char → Prop
  | stop {s : List Char} : p.parse s = none → Repeats p s .nil s
  | step {s mid rest : List Char} {f g : Forest} :
    p.parse s = some (f, mid) → Repeats p mid g rest → Repeats p s (f ++ g) rest

/-- Turns end where they do, in one way. -/
theorem Repeats.unique {g : Forest} {rest' : List Char} (h : Repeats p s f rest)
    (h' : Repeats p s g rest') : f = g ∧ rest = rest' := by
  induction h generalizing g with
  | stop hnone =>
    cases h' with
    | stop => exact ⟨rfl, rfl⟩
    | step hstep => rw [hnone] at hstep; cases hstep
  | step hstep _ ih =>
    cases h' with
    | stop hnone => rw [hnone] at hstep; cases hstep
    | step hstep' hrest =>
      rw [hstep] at hstep'
      cases hstep'
      obtain ⟨rfl, rfl⟩ := ih hrest
      exact ⟨rfl, rfl⟩

/-- Behind the last turn no further one is possible. -/
theorem Repeats.parse_eq_none (h : Repeats p s f rest) : p.parse rest = none := by
  induction h with
  | stop hnone => exact hnone
  | step _ _ ih => exact ih

/-- With a turn for each character, turns never run out. -/
theorem repeats_takeUpTo
    (htakes : ∀ s f rest, p.parse s = some (f, rest) → rest.length < s.length)
    {turns : List Char} (hs : s.length ≤ turns.length) :
    Repeats p s (takeUpTo p.parse turns s).1 (takeUpTo p.parse turns s).2 := by
  fun_induction takeUpTo p.parse turns s with
  | case1 s =>
    -- no turn is left over only where no character is
    refine .stop (Option.eq_none_iff_forall_ne_some.2 ?_)
    rintro ⟨f, rest⟩ h
    have := htakes _ _ _ h
    simp only [List.length_nil] at hs
    omega
  | case2 s _ _ hnone => exact .stop hnone
  | case3 s _ turns f mid hstep more ih =>
    have := htakes _ _ _ hstep
    simp only [List.length_cons] at hs
    exact .step hstep (ih (by omega))

/-- **A repetition takes turns up to where no further one is possible**, if every turn takes a
character at least. -/
theorem parse_many_iff_of_takes
    (htakes : ∀ s f rest, p.parse s = some (f, rest) → rest.length < s.length) :
    (many p).parse s = some (f, rest) ↔ Repeats p s f rest := by
  have hturns := repeats_takeUpTo htakes (Nat.le_refl s.length)
  rw [parse, Option.some.injEq, takeMany]
  constructor
  · intro h
    rwa [h] at hturns
  · intro h
    obtain ⟨hf, hrest⟩ := hturns.unique h
    exact Prod.ext hf hrest

theorem parse_many_iff (hp : p.productive) :
    (many p).parse s = some (f, rest) ↔ Repeats p s f rest :=
  parse_many_iff_of_takes fun _ _ _ => length_lt_of_productive hp

/-- A repetition always matches. -/
theorem exists_parse_many (p : Pattern) (s : List Char) :
    ∃ f rest, (many p).parse s = some (f, rest) := ⟨_, _, rfl⟩

/-- **A repetition that takes a character of a class each turn takes the longest run of them.** -/
theorem parse_many_iff_run {is : Char → Bool} (hp : ∀ {s f rest},
      p.parse s = some (f, rest) ↔ ∃ c, is c ∧ s = c :: rest ∧ f = .text [c] .nil) :
    (many p).parse s = some (f, rest) ↔
      ∃ w, s = w ++ rest ∧ (∀ c ∈ w, is c) ∧ Stops is rest ∧ f = .run w := by
  have hrun {w s : List Char} (hw : ∀ c ∈ w, is c) (hs : Stops is s) :
      (many p).parse (w ++ s) = some (.run w, s) := by
    have hturns : Repeats p (w ++ s) (.run w) s := by
      induction w with
      | nil =>
        refine .stop (Option.eq_none_iff_forall_ne_some.2 fun ⟨f, rest⟩ h => ?_)
        obtain ⟨c, hc, rfl, -⟩ := hp.1 h
        exact absurd hc (by simpa using stops_cons.1 hs)
      | cons c w ih =>
        obtain ⟨hc, hw⟩ := List.forall_mem_cons.1 hw
        exact .step (hp.2 ⟨c, hc, rfl, rfl⟩) (ih hw)
    refine (parse_many_iff_of_takes fun s f rest h => ?_).2 hturns
    obtain ⟨c, -, rfl, -⟩ := hp.1 h
    exact Nat.lt_succ_self _
  constructor
  · intro h
    have hsplit := hrun (w := s.takeWhile is) (fun c => of_mem_takeWhile) (stops_dropWhile is s)
    rw [List.takeWhile_append_dropWhile, h, Option.some.injEq, Prod.mk.injEq] at hsplit
    obtain ⟨rfl, rfl⟩ := hsplit
    exact ⟨_, List.takeWhile_append_dropWhile.symm, fun c => of_mem_takeWhile,
      stops_dropWhile is s, rfl⟩
  · rintro ⟨w, rfl, hw, hs, rfl⟩
    exact hrun hw hs

theorem parse_many_char_iff {is : Char → Bool} : (many (char is)).parse s = some (f, rest) ↔
    ∃ w, s = w ++ rest ∧ (∀ c ∈ w, is c) ∧ Stops is rest ∧ f = .run w :=
  parse_many_iff_run parse_char_iff

/-- One character of a class, and all that follow. -/
theorem parse_oneOrMore_char_iff {is : Char → Bool} :
    (oneOrMore (char is)).parse s = some (f, rest) ↔
      ∃ w, s = w ++ rest ∧ w ≠ [] ∧ (∀ c ∈ w, is c) ∧ Stops is rest ∧ f = .run w := by
  rw [oneOrMore, parse_append_iff]
  constructor
  · rintro ⟨_, _, _, h₁, h₂, rfl⟩
    obtain ⟨c, hc, rfl, rfl⟩ := parse_char_iff.1 h₁
    obtain ⟨w, rfl, hw, hs, rfl⟩ := parse_many_char_iff.1 h₂
    exact ⟨c :: w, rfl, by simp, List.forall_mem_cons.2 ⟨hc, hw⟩, hs, rfl⟩
  · rintro ⟨w, rfl, hne, hw, hs, rfl⟩
    cases w with
    | nil => exact absurd rfl hne
    | cons c w =>
      obtain ⟨hc, hw⟩ := List.forall_mem_cons.1 hw
      exact ⟨_, _, _, parse_char_iff.2 ⟨c, hc, rfl, rfl⟩,
        parse_many_char_iff.2 ⟨w, rfl, hw, hs, rfl⟩, rfl⟩

/-! ## Outermost rules -/

/-- The rules that can stand outermost in the record of a match, with their bodies. -/
def tops : Pattern → List (Rule × Pattern)
  | char _ => []
  | word _ => []
  | atEnd => []
  | seq first second => first.tops ++ second.tops
  | alt first second => first.tops ++ second.tops
  | opt body => body.tops
  | many body => body.tops
  | ahead _ => []
  | absent _ => []
  | rule r body => [(r, body)]

/-- A node that a rule of the pattern has left: what it holds is a match of the rule's body. -/
def Leaves (p : Pattern) (n : Node) : Prop :=
  ∃ body s rest, (n.rule, body) ∈ p.tops ∧ body.parse s = some (n.inner, rest)

/-- What holds of the record of every turn, and of records put together, holds of the record of a
repetition. -/
theorem forest_of_parse_many {P : Forest → Prop} (hnil : P .nil)
    (happend : ∀ {f g}, P f → P g → P (f ++ g))
    (hturn : ∀ {s f rest}, p.parse s = some (f, rest) → P f)
    (h : (many p).parse s = some (f, rest)) : P f := by
  have hturns (turns t : List Char) : P (takeUpTo p.parse turns t).1 := by
    fun_induction takeUpTo p.parse turns t with
    | case1 => exact hnil
    | case2 => exact hnil
    | case3 _ _ _ _ _ hstep _ ih => exact happend (hturn hstep) ih
  rw [parse, Option.some.injEq, takeMany] at h
  simpa only [h] using hturns s s

/-- **Outermost in a record stand only nodes of the pattern's rules.** -/
theorem leaves_of_mem_nodes (h : p.parse s = some (f, rest)) {start : Nat} {n : Node}
    (hn : n ∈ f.nodes start) : p.Leaves n := by
  induction p generalizing s f rest start n with
  | char is =>
    obtain ⟨c, -, -, rfl⟩ := parse_char_iff.1 h
    simp [Forest.nodes] at hn
  | word letters =>
    obtain ⟨-, rfl⟩ := parse_word_iff.1 h
    simp [Forest.nodes] at hn
  | atEnd =>
    obtain ⟨-, -, rfl⟩ := parse_atEnd_iff.1 h
    simp [Forest.nodes] at hn
  | seq first second ih₁ ih₂ =>
    obtain ⟨f₁, mid, f₂, h₁, h₂, rfl⟩ := parse_append_iff.1 h
    rw [Forest.nodes_append, List.mem_append] at hn
    rcases hn with hn | hn
    · obtain ⟨body, s, rest, hmem, hbody⟩ := ih₁ h₁ hn
      exact ⟨body, s, rest, List.mem_append_left _ hmem, hbody⟩
    · obtain ⟨body, s, rest, hmem, hbody⟩ := ih₂ h₂ hn
      exact ⟨body, s, rest, List.mem_append_right _ hmem, hbody⟩
  | alt first second ih₁ ih₂ =>
    rcases parse_orElse_iff.1 h with h | ⟨-, h⟩
    · obtain ⟨body, s, rest, hmem, hbody⟩ := ih₁ h hn
      exact ⟨body, s, rest, List.mem_append_left _ hmem, hbody⟩
    · obtain ⟨body, s, rest, hmem, hbody⟩ := ih₂ h hn
      exact ⟨body, s, rest, List.mem_append_right _ hmem, hbody⟩
  | opt body ih =>
    rcases parse_opt_iff.1 h with h | ⟨-, rfl, -⟩
    · exact ih h hn
    · simp [Forest.nodes] at hn
  | many body ih =>
    refine forest_of_parse_many (P := fun f => ∀ start, ∀ n ∈ f.nodes start, body.Leaves n)
      (fun _ _ hn => absurd hn List.not_mem_nil) (fun hf hg start n hn => ?_)
      (fun hturn _ _ hn => ih hturn hn) h start n hn
    rw [Forest.nodes_append, List.mem_append] at hn
    exact hn.elim (hf start n) (hg _ n)
  | ahead body =>
    obtain ⟨-, rfl, -⟩ := parse_ahead_iff.1 h
    simp [Forest.nodes] at hn
  | absent body =>
    obtain ⟨-, rfl, -⟩ := parse_absent_iff.1 h
    simp [Forest.nodes] at hn
  | rule r body =>
    obtain ⟨g, hg, rfl⟩ := parse_rule_iff.1 h
    simp only [Forest.nodes, List.mem_singleton] at hn
    subst hn
    exact ⟨body, s, rest, List.mem_singleton_self _, hg⟩

/-- A rule that cannot stand outermost does not. -/
theorem filter_nodes_eq_nil {r : Rule} (h : p.parse s = some (f, rest))
    (hr : r ∉ p.tops.map Prod.fst) (start : Nat) : (f.nodes start).filter (·.rule = r) = [] := by
  refine List.filter_eq_nil_iff.2 fun n hn => ?_
  obtain ⟨body, _, _, hmem, -⟩ := leaves_of_mem_nodes h hn
  simp only [decide_eq_true_eq]
  rintro rfl
  exact hr (List.mem_map_of_mem hmem)

/-- A pattern without rules leaves no node. -/
theorem nodes_eq_nil (h : p.parse s = some (f, rest)) (hp : p.tops = []) (start : Nat) :
    f.nodes start = [] := by
  refine List.eq_nil_iff_forall_not_mem.2 fun n hn => ?_
  obtain ⟨_, _, _, hmem, -⟩ := leaves_of_mem_nodes h hn
  rw [hp] at hmem
  exact List.not_mem_nil hmem

end Pattern

end SceneText
