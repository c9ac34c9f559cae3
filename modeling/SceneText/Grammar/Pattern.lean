import SceneText.Grammar.Forest

/-!
# Grammar/Pattern — ordered choice and greedy repetition

A pattern matches at the front of a text in at most one way: of two alternatives the first that
matches is taken for good, and a repetition takes as many turns as it can.
-/

namespace SceneText

/-- A parsing expression.  A rule stands with its body, so a pattern is a finite tree. -/
inductive Pattern where
  /-- One character of a class. -/
  | char (is : Char → Bool)
  /-- A word, letter by letter. -/
  | word (letters : List Char)
  /-- The end of the text. -/
  | atEnd
  | seq (first second : Pattern)
  | alt (first second : Pattern)
  | opt (body : Pattern)
  | many (body : Pattern)
  /-- Matches nothing, where the body would match. -/
  | ahead (body : Pattern)
  /-- Matches nothing, where the body would not match. -/
  | absent (body : Pattern)
  /-- Gathers what the body matches into a node. -/
  | rule (rule : Rule) (body : Pattern)

/-- One thing after the other. -/
instance : Append Pattern := ⟨.seq⟩

/-- The second where the first fails. -/
instance : OrElse Pattern := ⟨fun first second => .alt first (second ())⟩

/-- A pattern once or more often. -/
def Pattern.oneOrMore (body : Pattern) : Pattern := body ++ .many body

/-- What is left of a text after a word at its front. -/
def dropWord? : List Char → List Char → Option (List Char)
  | [], s => some s
  | _ :: _, [] => none
  | c :: word, d :: s => if c = d then dropWord? word s else none

/-- A match and the text after it. -/
abbrev Match := Forest × List Char

/-- Takes steps as long as they succeed, at most one for each entry of `turns`. -/
def takeUpTo (step : List Char → Option Match) : (turns s : List Char) → Match
  | [], s => (.nil, s)
  | _ :: turns, s =>
    match step s with
    | none => (.nil, s)
    | some (f, rest) =>
      let more := takeUpTo step turns rest
      (f ++ more.1, more.2)

/-- Takes steps as long as they succeed.  A step takes a character at least, so there are no more
steps than characters. -/
def takeMany (step : List Char → Option Match) (s : List Char) : Match := takeUpTo step s s

theorem dropWord?_eq_some_iff {word s rest : List Char} :
    dropWord? word s = some rest ↔ s = word ++ rest := by
  fun_induction dropWord? word s <;> grind

/-- Steps that keep the text keep it together. -/
theorem toList_takeUpTo {step : List Char → Option Match}
    (keeps : ∀ {s f rest}, step s = some (f, rest) → f.toList ++ rest = s) (turns s : List Char) :
    (takeUpTo step turns s).1.toList ++ (takeUpTo step turns s).2 = s := by
  fun_induction takeUpTo step turns s with
  | case1 => rfl
  | case2 => rfl
  | case3 _ _ s f rest h more ih => rw [Forest.toList_append, List.append_assoc, ih, keeps h]

namespace Pattern

/-- **The match of a pattern at the front of a text.** -/
def parse : Pattern → List Char → Option Match
  | char is, s =>
    match s with
    | c :: rest => if is c then some (.text [c] .nil, rest) else none
    | [] => none
  | word letters, s => (dropWord? letters s).map (.text letters .nil, ·)
  | atEnd, s => if s.isEmpty then some (.nil, s) else none
  | seq first second, s =>
    match first.parse s with
    | none => none
    | some (f, rest) => (second.parse rest).map fun (g, rest) => (f ++ g, rest)
  | alt first second, s => (first.parse s).or (second.parse s)
  | opt body, s => some ((body.parse s).getD (.nil, s))
  | many body, s => some (takeMany body.parse s)
  | ahead body, s => if (body.parse s).isSome then some (.nil, s) else none
  | absent body, s => if (body.parse s).isSome then none else some (.nil, s)
  | rule r body, s => (body.parse s).map fun (f, rest) => (.node r f .nil, rest)

/-- **A match and what it leaves make up the text.** -/
theorem toList_parse {p : Pattern} {s : List Char} {f : Forest} {rest : List Char}
    (h : p.parse s = some (f, rest)) : f.toList ++ rest = s := by
  induction p generalizing s f rest with
  | char is =>
    cases s with
    | nil => simp [parse] at h
    | cons c s =>
      simp only [parse, Option.ite_none_right_eq_some, Option.some.injEq, Prod.mk.injEq] at h
      obtain ⟨_, rfl, rfl⟩ := h
      rfl
  | word letters =>
    simp only [parse, Option.map_eq_some_iff, dropWord?_eq_some_iff, Prod.mk.injEq] at h
    obtain ⟨_, rfl, rfl, rfl⟩ := h
    simp [Forest.toList]
  | atEnd =>
    simp only [parse, Option.ite_none_right_eq_some, Option.some.injEq, Prod.mk.injEq] at h
    obtain ⟨_, rfl, rfl⟩ := h
    rfl
  | seq first second ih₁ ih₂ =>
    simp only [parse] at h
    split at h
    · cases h
    · rename_i f₁ rest₁ h₁
      simp only [Option.map_eq_some_iff, Prod.mk.injEq] at h
      obtain ⟨⟨f₂, _⟩, h₂, rfl, rfl⟩ := h
      rw [Forest.toList_append, List.append_assoc, ih₂ h₂, ih₁ h₁]
  | alt first second ih₁ ih₂ =>
    simp only [parse, Option.or_eq_some_iff] at h
    exact h.elim ih₁ fun h => ih₂ h.2
  | opt body ih =>
    simp only [parse, Option.some.injEq] at h
    cases hb : body.parse s with
    | none => rw [hb] at h; cases h; rfl
    | some m => rw [hb] at h; cases h; exact ih hb
  | many body ih =>
    simp only [parse, Option.some.injEq] at h
    have := toList_takeUpTo (fun hb => ih hb) s s
    rwa [← takeMany, h] at this
  | ahead body _ =>
    simp only [parse, Option.ite_none_right_eq_some, Option.some.injEq, Prod.mk.injEq] at h
    obtain ⟨_, rfl, rfl⟩ := h
    rfl
  | absent body _ =>
    simp only [parse, Option.ite_none_left_eq_some, Option.some.injEq, Prod.mk.injEq] at h
    obtain ⟨_, rfl, rfl⟩ := h
    rfl
  | rule r body ih =>
    simp only [parse, Option.map_eq_some_iff, Prod.mk.injEq] at h
    obtain ⟨⟨g, _⟩, hb, rfl, rfl⟩ := h
    simpa [Forest.toList] using ih hb

/-- **What a match leaves is the end of the text.** -/
theorem suffix_of_parse {p : Pattern} {s : List Char} {f : Forest} {rest : List Char}
    (h : p.parse s = some (f, rest)) : rest <:+ s := ⟨f.toList, toList_parse h⟩

end Pattern

end SceneText
