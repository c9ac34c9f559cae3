import SceneText.Grammar.Furthest
import SceneText.Proofs.Grammar.Match

/-!
# Proofs/Grammar/Notes — the failures of a match, one by one

`Pattern.search` keeps the furthest failures only, and so depends on what has been kept before.
`Pattern.notes` lists all failures that a pattern leaves at a text, whatever went before:

* `search_eq_foldl` — the record is what is left when the notes are entered one by one;
* `tells_search` — hence the record of a match holds the furthest place of a note, and the
  rules noted there.
-/

namespace SceneText

/-- A rule that has failed, and the text from the place on where it has. -/
structure Note where
  rule : Rule
  rest : List Char
  deriving DecidableEq, Repr

/-- The notes that a rule leaves which has failed at `s`, where its body has left some: a rule
stands for its body, unless the body has left one note or has come further. -/
def settle (r : Rule) (s : List Char) (ns : List Note) : List Note :=
  if ns.length = 1 ∨ ∃ n ∈ ns, n.rest.length < s.length then ns else [⟨r, s⟩]

/-- The notes of at most one turn for each entry of `turns`, and of the turn that fails. -/
def notesUpTo (step : List Char → Option Match) (notes : List Char → List Note) :
    (turns s : List Char) → List Note
  | [], s => notes s
  | _ :: turns, s =>
    match step s with
    | none => notes s
    | some (_, rest) => notes s ++ notesUpTo step notes turns rest

namespace Pattern

/-- **The failures that matching a pattern leaves**, in order. -/
def notes : Pattern → List Char → List Note
  | char _, _ => []
  | word _, _ => []
  | atEnd, _ => []
  | seq first second, s =>
    match first.parse s with
    | none => first.notes s
    | some (_, rest) => first.notes s ++ second.notes rest
  | alt first second, s =>
    match first.parse s with
    | none => first.notes s ++ second.notes s
    | some _ => first.notes s
  | opt body, s => body.notes s
  | many body, s => notesUpTo body.parse body.notes s s
  | ahead body, s => body.notes s
  | absent _, _ => []
  | rule r body, s =>
    match body.parse s with
    | none => settle r s (body.notes s)
    | some _ => body.notes s

end Pattern

variable {s : List Char} {far : Furthest} {n : Note} {ns : List Note} {r : Rule}

/-! ## Where notes are -/

theorem mem_settle (h : n ∈ settle r s ns) : n ∈ ns ∨ n = ⟨r, s⟩ := by
  unfold settle at h
  split at h
  · exact .inl h
  · exact .inr (List.mem_singleton.1 h)

/-- A rule notes itself where its body fails, or what its body does. -/
theorem Pattern.mem_notes_rule {p : Pattern} (h : n ∈ (rule r p).notes s) :
    n = ⟨r, s⟩ ∧ p.parse s = none ∨ n ∈ p.notes s := by
  rw [notes] at h
  split at h
  · rename_i hnone
    exact (mem_settle h).symm.imp_left fun h => ⟨h, hnone⟩
  · exact .inr h

theorem mem_notesUpTo (step : List Char → Option Match) {notes : List Char → List Note}
    {P : List Char → Note → Prop} (hnotes : ∀ {s n}, n ∈ notes s → P s n)
    (hstep : ∀ {s f rest n}, step s = some (f, rest) → P rest n → P s n) (turns : List Char)
    (h : n ∈ notesUpTo step notes turns s) : P s n := by
  fun_induction notesUpTo step notes turns s with
  | case1 => exact hnotes h
  | case2 => exact hnotes h
  | case3 _ _ s _ _ hs ih =>
    rcases List.mem_append.1 h with h | h
    · exact hnotes h
    · exact hstep hs (ih h)

/-- **A failure is noted inside the text.** -/
theorem Pattern.suffix_of_mem_notes {p : Pattern} {s : List Char} {n : Note} (h : n ∈ p.notes s) :
    n.rest <:+ s := by
  induction p generalizing s n with
  | char => cases h
  | word => cases h
  | atEnd => cases h
  | absent => cases h
  | seq first second ih₁ ih₂ =>
    rw [notes] at h
    split at h
    · exact ih₁ h
    · rename_i hfirst
      rcases List.mem_append.1 h with h | h
      · exact ih₁ h
      · exact (ih₂ h).trans (suffix_of_parse hfirst)
  | alt first second ih₁ ih₂ =>
    rw [notes] at h
    split at h
    · exact (List.mem_append.1 h).elim ih₁ ih₂
    · exact ih₁ h
  | opt body ih => exact ih h
  | ahead body ih => exact ih h
  | many body ih =>
    exact mem_notesUpTo (P := fun s n => n.rest <:+ s) body.parse (fun hn => ih hn)
      (fun hs hn => hn.trans (suffix_of_parse hs)) s h
  | rule r body ih =>
    rcases mem_notes_rule h with ⟨rfl, -⟩ | h
    · exact List.suffix_rfl
    · exact ih h

namespace Pattern

/-- All rules in a pattern. -/
def rules : Pattern → List Rule
  | char _ => []
  | word _ => []
  | atEnd => []
  | seq first second => first.rules ++ second.rules
  | alt first second => first.rules ++ second.rules
  | opt body => body.rules
  | many body => body.rules
  | ahead body => body.rules
  | absent body => body.rules
  | rule r body => r :: body.rules

/-- All rules in a pattern, with what they match. -/
def bodies : Pattern → List (Rule × Pattern)
  | char _ => []
  | word _ => []
  | atEnd => []
  | seq first second => first.bodies ++ second.bodies
  | alt first second => first.bodies ++ second.bodies
  | opt body => body.bodies
  | many body => body.bodies
  | ahead body => body.bodies
  | absent body => body.bodies
  | rule r body => (r, body) :: body.bodies

theorem map_fst_bodies (p : Pattern) : p.bodies.map Prod.fst = p.rules := by
  induction p <;> simp [bodies, rules, *]

/-- **What is noted fails there**: a rule of the pattern, whose body does not match. -/
theorem exists_body_of_mem_notes {p : Pattern} {s : List Char} {n : Note} (h : n ∈ p.notes s) :
    ∃ body, (n.rule, body) ∈ p.bodies ∧ body.parse n.rest = none := by
  induction p generalizing s n with
  | char => cases h
  | word => cases h
  | atEnd => cases h
  | absent => cases h
  | seq first second ih₁ ih₂ =>
    have hmem : n ∈ first.notes s ∨ ∃ rest, n ∈ second.notes rest := by
      rw [notes] at h
      split at h
      · exact .inl h
      · exact (List.mem_append.1 h).imp_right fun h => ⟨_, h⟩
    rcases hmem with h | ⟨rest, h⟩
    · exact (ih₁ h).imp fun body hbody => hbody.imp_left (List.mem_append_left _)
    · exact (ih₂ h).imp fun body hbody => hbody.imp_left (List.mem_append_right _)
  | alt first second ih₁ ih₂ =>
    have hmem : n ∈ first.notes s ∨ n ∈ second.notes s := by
      rw [notes] at h
      split at h
      · exact List.mem_append.1 h
      · exact .inl h
    rcases hmem with h | h
    · exact (ih₁ h).imp fun body hbody => hbody.imp_left (List.mem_append_left _)
    · exact (ih₂ h).imp fun body hbody => hbody.imp_left (List.mem_append_right _)
  | opt body ih => exact ih h
  | ahead body ih => exact ih h
  | many body ih =>
    exact mem_notesUpTo (P := fun _ n => ∃ b, (n.rule, b) ∈ body.bodies ∧ b.parse n.rest = none)
      body.parse (fun hn => ih hn) (fun _ hn => hn) s h
  | rule r body ih =>
    rcases mem_notes_rule h with ⟨rfl, hnone⟩ | h
    · exact ⟨body, List.mem_cons_self, hnone⟩
    · exact (ih h).imp fun body hbody => hbody.imp_left (List.mem_cons_of_mem _)

/-- Only rules of the pattern are noted. -/
theorem rule_mem_of_mem_notes {p : Pattern} {s : List Char} {n : Note} (h : n ∈ p.notes s) :
    n.rule ∈ p.rules := by
  obtain ⟨body, hbody, -⟩ := exists_body_of_mem_notes h
  exact p.map_fst_bodies ▸ List.mem_map_of_mem (f := Prod.fst) hbody

/-- A pattern without rules notes nothing. -/
theorem notes_eq_nil {p : Pattern} (hp : p.rules = []) (s : List Char) : p.notes s = [] :=
  List.eq_nil_iff_forall_not_mem.2 fun n hn => by
    have hrule := rule_mem_of_mem_notes hn
    rw [hp] at hrule
    cases hrule

/-! ## Notes, one constructor at a time -/

variable {p q : Pattern} {mid : List Char} {f : Forest}

theorem parse_append_of_none (h : p.parse s = none) : (p ++ q).parse s = none :=
  parse_append_eq_none_iff.2 fun f mid hp => by
    rw [h] at hp
    cases hp

theorem notes_append_of_none (h : p.parse s = none) : (p ++ q).notes s = p.notes s := by
  change (seq p q).notes s = _
  rw [notes, h]

theorem notes_append_of_some (h : p.parse s = some (f, mid)) :
    (p ++ q).notes s = p.notes s ++ q.notes mid := by
  change (seq p q).notes s = _
  rw [notes, h]

/-- What is noted of two patterns is noted of the first, or of the second behind it. -/
theorem mem_notes_append {n : Note} (h : n ∈ (p ++ q).notes s) :
    n ∈ p.notes s ∨ ∃ f mid, p.parse s = some (f, mid) ∧ n ∈ q.notes mid := by
  cases hp : p.parse s with
  | none => exact .inl (notes_append_of_none hp ▸ h)
  | some m =>
    rw [notes_append_of_some hp, List.mem_append] at h
    exact h.imp_right fun h => ⟨m.1, m.2, rfl, h⟩

theorem notes_append_assoc (p q p' : Pattern) (s : List Char) :
    (p ++ q ++ p').notes s = (p ++ (q ++ p')).notes s := by
  cases hp : p.parse s with
  | none =>
    have hpq : (p ++ q).parse s = none := parse_append_of_none hp
    rw [notes_append_of_none hpq, notes_append_of_none hp, notes_append_of_none hp]
  | some m =>
    cases hq : q.parse m.2 with
    | none =>
      have hpq : (p ++ q).parse s = none :=
        parse_append_eq_none_iff.2 fun f mid h => by rw [hp] at h; cases h; exact hq
      rw [notes_append_of_none hpq, notes_append_of_some hp, notes_append_of_some hp,
        notes_append_of_none hq]
    | some m' =>
      have hpq := parse_append_iff.2 ⟨m.1, m.2, m'.1, hp, hq, rfl⟩
      rw [notes_append_of_some hpq, notes_append_of_some hp, notes_append_of_some hp,
        notes_append_of_some hq, List.append_assoc]

theorem notes_orElse_of_none (h : p.parse s = none) :
    (p <|> q).notes s = p.notes s ++ q.notes s := by
  change (alt p q).notes s = _
  rw [notes, h]

theorem notes_orElse_of_some {m : Match} (h : p.parse s = some m) :
    (p <|> q).notes s = p.notes s := by
  change (alt p q).notes s = _
  rw [notes, h]

theorem notes_rule_of_none (h : p.parse s = none) :
    (rule r p).notes s = settle r s (p.notes s) := by
  rw [notes, h]

theorem notes_rule_of_some {m : Match} (h : p.parse s = some m) :
    (rule r p).notes s = p.notes s := by
  rw [notes, h]

theorem notes_many_of_none (h : p.parse s = none) : (many p).notes s = p.notes s := by
  cases s <;> simp [notes, notesUpTo, h]

/-- Turns note what they did, whatever is left of the turns that they may take. -/
theorem notesUpTo_congr (hp : p.productive) {turns turns' : List Char}
    (hs : s.length ≤ turns.length) (hs' : s.length ≤ turns'.length) :
    notesUpTo p.parse p.notes turns s = notesUpTo p.parse p.notes turns' s := by
  induction turns generalizing s turns' with
  | nil =>
    obtain rfl := List.eq_nil_of_length_eq_zero (Nat.le_zero.1 hs)
    have hnone : p.parse [] = none := Option.eq_none_iff_forall_ne_some.2 fun _ h =>
      absurd (length_lt_of_productive hp h) (Nat.not_lt_zero _)
    cases turns' with
    | nil => rfl
    | cons c turns' => simp [notesUpTo, hnone]
  | cons c turns ih =>
    cases h : p.parse s with
    | none => cases turns' <;> simp [notesUpTo, h]
    | some m =>
      have hlt := length_lt_of_productive hp h
      cases turns' with
      | nil => exact absurd (hlt.trans_le hs') (Nat.not_lt_zero _)
      | cons c' turns' =>
        have hturns := Nat.lt_succ_iff.1 (hlt.trans_le hs)
        have hturns' := Nat.lt_succ_iff.1 (hlt.trans_le hs')
        simp only [notesUpTo, h, ih hturns hturns']

theorem notes_many_of_some (hp : p.productive) (h : p.parse s = some (f, mid)) :
    (many p).notes s = p.notes s ++ (many p).notes mid := by
  have hlt := length_lt_of_productive hp h
  cases s with
  | nil => exact absurd hlt (Nat.not_lt_zero _)
  | cons c s =>
    change notesUpTo p.parse p.notes (c :: s) (c :: s) = _
    rw [notesUpTo, h]
    exact congrArg _ (notesUpTo_congr hp (Nat.lt_succ_iff.1 hlt) le_rfl)

/-- **A rule that fails notes something**, where it began or further on. -/
theorem exists_mem_notes_rule (h : p.parse s = none) : ∃ n, n ∈ (rule r p).notes s := by
  rw [notes_rule_of_none h]
  unfold settle
  split
  · rename_i hkeep
    rcases hkeep with hone | ⟨n, hn, -⟩
    · obtain ⟨n, hn⟩ := List.length_eq_one_iff.1 hone
      exact ⟨n, by simp [hn]⟩
    · exact ⟨n, hn⟩
  · exact ⟨_, List.mem_singleton.2 rfl⟩

/-- What the body of a failed rule notes further on is kept. -/
theorem notes_rule_of_further (h : p.parse s = none) {n : Note} (hn : n ∈ p.notes s)
    (hlt : n.rest.length < s.length) : (rule r p).notes s = p.notes s := by
  rw [notes_rule_of_none h, settle, if_pos (.inr ⟨n, hn, hlt⟩)]

/-! ## Patterns that note nothing where they match -/

/-- A match leaves no note. -/
def Silent (p : Pattern) : Prop := ∀ ⦃s m⦄, p.parse s = some m → p.notes s = []

theorem silent_of_rules (hp : p.rules = []) : p.Silent := fun s _ _ => notes_eq_nil hp s

theorem Silent.append (hp : p.Silent) (hq : q.Silent) : (p ++ q).Silent := by
  rintro s ⟨f, rest⟩ h
  obtain ⟨f₁, mid, f₂, h₁, h₂, -⟩ := parse_append_iff.1 h
  rw [notes_append_of_some h₁, hp h₁, hq h₂, List.append_nil]

theorem Silent.rule (hp : p.Silent) : (rule r p).Silent := by
  rintro s ⟨f, rest⟩ h
  obtain ⟨g, hg, -⟩ := parse_rule_iff.1 h
  rw [notes_rule_of_some hg, hp hg]

/-- What is silent behind a pattern adds nothing where both match. -/
theorem Silent.notes_append (hq : q.Silent) {m : Match} (h : (p ++ q).parse s = some m) :
    (p ++ q).notes s = p.notes s := by
  obtain ⟨f₁, mid, f₂, h₁, h₂, -⟩ := parse_append_iff.1 h
  rw [notes_append_of_some h₁, hq h₂, List.append_nil]

/-- Turns that note nothing leave what the failing turn notes. -/
theorem Silent.notes_many (hp : p.Silent) (hproductive : p.productive) {rest : List Char}
    (h : (many p).parse s = some (f, rest)) : (many p).notes s = p.notes rest := by
  have hturns := (parse_many_iff hproductive).1 h
  clear h
  induction hturns with
  | stop hnone => exact notes_many_of_none hnone
  | step hstep _ ih => rw [notes_many_of_some hproductive hstep, hp hstep, List.nil_append, ih]

/-- A rule whose body notes nothing notes itself where it fails. -/
theorem notes_rule_eq_singleton (h : p.parse s = none) (hp : p.notes s = []) :
    (rule r p).notes s = [⟨r, s⟩] := by
  rw [notes_rule_of_none h, hp]
  exact if_neg (by simp)

end Pattern

/-! ## The record of some notes -/

namespace Furthest

/-- A record with one more note. -/
def enter (far : Furthest) (n : Note) : Furthest :=
  if n.rest.length = far.rest.length then ⟨far.rest, far.rules ++ [n.rule]⟩
  else if n.rest.length < far.rest.length then ⟨n.rest, [n.rule]⟩
  else far

theorem enter_of_eq (h : n.rest.length = far.rest.length) :
    far.enter n = ⟨far.rest, far.rules ++ [n.rule]⟩ := if_pos h

theorem enter_of_lt (h : n.rest.length < far.rest.length) : far.enter n = ⟨n.rest, [n.rule]⟩ := by
  rw [enter, if_neg h.ne, if_pos h]

theorem enter_of_gt (h : far.rest.length < n.rest.length) : far.enter n = far := by
  rw [enter, if_neg h.ne', if_neg h.not_gt]

theorem length_rest_enter (far : Furthest) (n : Note) :
    (far.enter n).rest.length = min far.rest.length n.rest.length := by
  rcases lt_trichotomy n.rest.length far.rest.length with h | h | h
  · rw [enter_of_lt h, min_eq_right h.le]
  · rw [enter_of_eq h, h, min_self]
  · rw [enter_of_gt h, min_eq_left h.le]

/-- Notes at one place, none of them further than what is recorded. -/
theorem foldl_enter_of_gt (h : ∀ n ∈ ns, far.rest.length < n.rest.length) :
    ns.foldl enter far = far := by
  induction ns with
  | nil => rfl
  | cons n ns ih =>
    obtain ⟨hn, hns⟩ := List.forall_mem_cons.1 h
    rw [List.foldl_cons, enter_of_gt hn, ih hns]

/-- Notes at the place that is recorded. -/
theorem foldl_enter_of_eq (h : ∀ n ∈ ns, n.rest.length = far.rest.length) :
    ns.foldl enter far = ⟨far.rest, far.rules ++ ns.map Note.rule⟩ := by
  induction ns generalizing far with
  | nil => simp
  | cons n ns ih =>
    obtain ⟨hn, hns⟩ := List.forall_mem_cons.1 h
    have hsame : ∀ m ∈ ns, m.rest.length = (far.enter n).rest.length := by
      rwa [enter_of_eq hn]
    rw [List.foldl_cons, ih hsame, enter_of_eq hn]
    simp

/-- The record lies no further than each note and than what was recorded before. -/
theorem length_rest_foldl_le (ns : List Note) (far : Furthest) :
    (ns.foldl enter far).rest.length ≤ far.rest.length ∧
      ∀ n ∈ ns, (ns.foldl enter far).rest.length ≤ n.rest.length := by
  induction ns generalizing far with
  | nil => simp
  | cons n ns ih =>
    obtain ⟨hfar, hns⟩ := ih (far.enter n)
    rw [length_rest_enter] at hfar
    exact ⟨hfar.trans (min_le_left _ _),
      List.forall_mem_cons.2 ⟨hfar.trans (min_le_right _ _), hns⟩⟩

theorem countAt_of_eq (h : s.length = far.rest.length) : far.countAt s = far.rules.length :=
  if_pos h

theorem countAt_of_ne (h : s.length ≠ far.rest.length) : far.countAt s = 0 := if_neg h

/-- A rule is passed over whose body has come further. -/
theorem fail_of_lt {after : Furthest} (h : after.rest.length < s.length) :
    fail r s far after = after := by
  rw [fail, countAt_of_ne h.ne', if_neg (by omega), if_neg h.ne', if_neg h.not_gt]

/-- A rule takes the place of what its body has noted where it began, one note apart. -/
theorem fail_foldl_of_eq (hs : ∀ n ∈ ns, n.rest = s) : fail r s far (ns.foldl enter far) =
    if ns.length = 1 then ns.foldl enter far else far.enter ⟨r, s⟩ := by
  rcases lt_trichotomy s.length far.rest.length with h | h | h
  · rw [enter_of_lt (n := ⟨r, s⟩) h]
    cases ns with
    | nil => simp [fail, countAt_of_ne h.ne, h.ne, h]
    | cons n ns =>
      obtain ⟨rfl, hns⟩ := List.forall_mem_cons.1 hs
      rw [List.foldl_cons, enter_of_lt h,
        foldl_enter_of_eq fun m hm => congrArg List.length (hns m hm)]
      simp [fail, countAt_of_ne h.ne, countAt_of_eq]
  · rw [enter_of_eq (n := ⟨r, s⟩) h, foldl_enter_of_eq fun n hn => by rw [hs n hn, h]]
    simp [fail, countAt, h]
  · rw [enter_of_gt (n := ⟨r, s⟩) h, foldl_enter_of_gt fun n hn => by rwa [hs n hn]]
    simp [fail, countAt_of_ne h.ne', h.ne', h.not_gt]

/-- **A failed rule is recorded as the notes are that it settles for.** -/
theorem fail_eq_foldl (hs : ∀ n ∈ ns, n.rest <:+ s) :
    fail r s far (ns.foldl enter far) = (settle r s ns).foldl enter far := by
  by_cases hfurther : ∃ n ∈ ns, n.rest.length < s.length
  case pos =>
    obtain ⟨n, hn, hlt⟩ := hfurther
    rw [settle, if_pos (.inr ⟨n, hn, hlt⟩)]
    exact fail_of_lt (((length_rest_foldl_le ns far).2 n hn).trans_lt hlt)
  case neg =>
    have hat : ∀ n ∈ ns, n.rest = s := fun n hn =>
      (hs n hn).eq_of_length_le (not_lt.1 fun hlt => hfurther ⟨n, hn, hlt⟩)
    have hsettle : settle r s ns = if ns.length = 1 then ns else [⟨r, s⟩] := by
      simp [settle, hfurther]
    rw [fail_foldl_of_eq hat, hsettle]
    split <;> rfl

end Furthest

/-- Turns record what they note. -/
theorem searchUpTo_eq_foldl {step : List Char → Option Match}
    {search : List Char → Furthest → Furthest} {notes : List Char → List Note}
    (h : ∀ s far, search s far = (notes s).foldl Furthest.enter far) (turns s : List Char)
    (far : Furthest) :
    searchUpTo step search turns s far =
      (notesUpTo step notes turns s).foldl Furthest.enter far := by
  fun_induction searchUpTo step search turns s far with
  | case1 => exact h _ _
  | case2 _ _ _ _ hs => rw [notesUpTo, hs, h]
  | case3 _ _ _ _ _ _ hs ih => rw [ih, notesUpTo, hs, List.foldl_append, h]

/-- **A match records its notes**, one by one. -/
theorem Pattern.search_eq_foldl (p : Pattern) (s : List Char) (far : Furthest) :
    p.search s far = (p.notes s).foldl Furthest.enter far := by
  induction p generalizing s far with
  | char => rfl
  | word => rfl
  | atEnd => rfl
  | absent => rfl
  | seq first second ih₁ ih₂ =>
    cases h : first.parse s with
    | none => simp only [search, notes, h, ih₁]
    | some m => simp only [search, notes, h, ih₁, ih₂, List.foldl_append]
  | alt first second ih₁ ih₂ =>
    cases h : first.parse s with
    | none => simp only [search, notes, h, ih₁, ih₂, List.foldl_append]
    | some m => simp only [search, notes, h, ih₁]
  | opt body ih => exact ih s far
  | ahead body ih => exact ih s far
  | many body ih => exact searchUpTo_eq_foldl ih s s far
  | rule r body ih =>
    cases h : body.parse s with
    | none =>
      simp only [search, notes, h, ih, Furthest.fail_eq_foldl fun _ => suffix_of_mem_notes]
    | some m => simp only [search, notes, h, ih]

/-! ## What the record of a match tells -/

namespace Furthest

/-- **A record tells of some notes** in a text the furthest place, and the rules noted there. -/
structure Tells (far : Furthest) (s : List Char) (noted : Set Note) : Prop where
  le : ∀ n ∈ noted, far.rest.length ≤ n.rest.length
  mem_rules_iff : ∀ r, r ∈ far.rules ↔ ⟨r, far.rest⟩ ∈ noted
  suffix : far.rest <:+ s
  reached : far.rest = s ∨ ∃ r, ⟨r, far.rest⟩ ∈ noted

variable {noted : Set Note}

theorem tells_start (s : List Char) : (start s).Tells s ∅ :=
  ⟨by simp, by simp [start], List.suffix_rfl, .inl rfl⟩

theorem Tells.enter (h : far.Tells s noted) (hn : n.rest <:+ s) :
    (far.enter n).Tells s (insert n noted) := by
  obtain ⟨hle, hmem, hfar, hreached⟩ := h
  obtain ⟨r, t⟩ := n
  rcases lt_trichotomy t.length far.rest.length with h | h | h
  · rw [enter_of_lt (n := ⟨r, t⟩) h]
    have hnone (r' : Rule) : ⟨r', t⟩ ∉ noted := fun hm => (hle _ hm).not_gt h
    refine ⟨?_, fun r' => by simp [hnone], hn, .inr ⟨r, .inl rfl⟩⟩
    rintro m (rfl | hm)
    · exact le_rfl
    · exact h.le.trans (hle m hm)
  · obtain rfl : t = far.rest := (List.suffix_of_suffix_length_le hn hfar h.le).eq_of_length h
    rw [enter_of_eq (n := ⟨r, far.rest⟩) rfl]
    refine ⟨?_, fun r' => by simp [hmem, or_comm], hfar, .inr ⟨r, .inl rfl⟩⟩
    rintro m (rfl | hm)
    · exact le_rfl
    · exact hle m hm
  · rw [enter_of_gt (n := ⟨r, t⟩) h]
    have hne : far.rest ≠ t := by
      rintro rfl
      exact lt_irrefl _ h
    refine ⟨?_, fun r' => by simp [hmem, hne], hfar, hreached.imp_right fun ⟨r', hr'⟩ =>
      ⟨r', .inr hr'⟩⟩
    rintro m (rfl | hm)
    · exact h.le
    · exact hle m hm

theorem Tells.foldl_enter (h : far.Tells s noted) (hns : ∀ n ∈ ns, n.rest <:+ s) :
    (ns.foldl Furthest.enter far).Tells s {n | n ∈ ns ∨ n ∈ noted} := by
  induction ns generalizing far noted with
  | nil => simpa using h
  | cons n ns ih =>
    obtain ⟨hn, hns⟩ := List.forall_mem_cons.1 hns
    have heq : {m | m ∈ n :: ns ∨ m ∈ noted} = {m | m ∈ ns ∨ m ∈ insert n noted} := by
      ext m
      simp only [List.mem_cons, Set.mem_insert_iff, Set.mem_ofPred_eq]
      tauto
    rw [heq]
    exact ih (h.enter hn) hns

/-- Where anything is noted, the furthest place is one where something is. -/
theorem Tells.exists_mem (h : far.Tells s noted) (hn : n ∈ noted) (hs : n.rest <:+ s) :
    ∃ r, ⟨r, far.rest⟩ ∈ noted := by
  refine h.reached.elim (fun hfar => ?_) id
  have hlength := h.le n hn
  rw [hfar] at hlength ⊢
  rw [← hs.eq_of_length_le hlength]
  exact ⟨n.rule, hn⟩

/-- **What no note exceeds is the furthest place.** -/
theorem Tells.rest_eq (h : far.Tells s noted) (hn : n ∈ noted) (hs : n.rest <:+ s)
    (hle : ∀ m ∈ noted, n.rest.length ≤ m.rest.length) : far.rest = n.rest := by
  obtain ⟨r, hr⟩ := h.exists_mem hn hs
  have hfar := h.le n hn
  have hlength := hle _ hr
  exact (List.suffix_of_suffix_length_le h.suffix hs hfar).eq_of_length_le hlength

end Furthest

/-- **The record of a match tells of its notes.** -/
theorem Pattern.tells_search (p : Pattern) (s : List Char) :
    (p.search s (.start s)).Tells s {n | n ∈ p.notes s} := by
  rw [search_eq_foldl]
  simpa using (Furthest.tells_start s).foldl_enter fun n => suffix_of_mem_notes (p := p)

end SceneText
