import SceneText.Proofs.Format.Place
import SceneText.Proofs.Grammar.Tokens

/-!
# Proofs/Format/Reads — values at the front of a text

`Reads s v rest` says that the rule of a type matches at the front of `s`, leaves `rest`, and that
its node has the value `v`.  A list of values is the first of them and those that follow, one for
each turn of the repetition (`Follow`); where the list has a node of its own, this is
`reads_list_iff`.  A whole text has a value if the value is read and leaves nothing
(`readText_eq_ok_iff`).
-/

namespace SceneText

/-! ## Steps that may fail -/

section Steps

variable {ε α β : Type} {x : Except ε α}

theorem bind_eq_ok_iff {f : α → Except ε β} {b : β} :
    x >>= f = .ok b ↔ ∃ a, x = .ok a ∧ f a = .ok b := by
  cases x <;> simp [bind, Except.bind]

theorem map_eq_ok_iff {f : α → β} {b : β} : f <$> x = .ok b ↔ ∃ a, x = .ok a ∧ f a = b := by
  cases x <;> simp [Functor.map, Except.map]

theorem mapM_cons_eq_ok_iff {f : α → Except ε β} {a : α} {as : List α} {bs : List β} :
    (a :: as).mapM f = .ok bs ↔ ∃ b bs', f a = .ok b ∧ as.mapM f = .ok bs' ∧ bs = b :: bs' := by
  rw [List.mapM_cons, bind_eq_ok_iff]
  simp only [bind_eq_ok_iff]
  constructor
  · rintro ⟨b, hb, bs', hbs, h⟩
    cases h
    exact ⟨b, bs', hb, hbs, rfl⟩
  · rintro ⟨b, bs', hb, hbs, rfl⟩
    exact ⟨b, hb, bs', hbs, rfl⟩

end Steps

/-! ## Whole texts -/

/-- What a rule matches is gathered into a node of the rule. -/
def Rule.Gathers (r : Rule) : Prop := ∃ body, r.pattern = .rule r body

theorem byteLength_eq_zero_iff {s : List Char} : byteLength s = 0 ↔ s = [] := by
  cases s with
  | nil => simp
  | cons c s =>
    have := c.utf8Size_pos
    simp only [byteLength_cons, reduceCtorEq, iff_false]
    omega

theorem one_le_byteLength {s : List Char} (hs : s ≠ []) : 1 ≤ byteLength s :=
  Nat.one_le_iff_ne_zero.2 (mt byteLength_eq_zero_iff.1 hs)

/-- A match is refused if it leaves something. -/
theorem wholeNode_of_matches {r : Rule} {s : List Char} {g : Forest} {rest : List Char}
    (h : r.Matches s g rest) : wholeNode r s =
      if rest = [] then .ok ⟨r, 0, g⟩
      else .error (.unexpected r .endOfText (byteLength g.toList)) := by
  have htext : byteLength g.toList + byteLength rest = byteLength s := by
    rw [← byteLength_append, h.toList_append]
  have hwhole : byteLength g.toList = byteLength s ↔ rest = [] := by
    rw [← byteLength_eq_zero_iff]
    omega
  rw [Rule.Matches] at h
  simp only [wholeNode, Rule.nodes, h, Forest.nodes, Node.stop, Node.text, Nat.zero_add, hwhole]

/-- Without a match, the furthest place tells what is wrong. -/
theorem wholeNode_of_parse_eq_none {r : Rule} {s : List Char} (h : r.pattern.parse s = none) :
    wholeNode r s = .error (.ofFurthest s (r.pattern.search s (.start s))) := by
  simp only [wholeNode, Rule.nodes, h]

/-- **A rule that gathers a node matches, or its pattern fails.** -/
theorem Rule.Gathers.matches_or {r : Rule} (hr : r.Gathers) (s : List Char) :
    r.pattern.parse s = none ∨ ∃ g rest, r.Matches s g rest := by
  obtain ⟨body, hbody⟩ := hr
  cases h : r.pattern.parse s with
  | none => exact .inl rfl
  | some m =>
    obtain ⟨g, -, hg⟩ := (Rule.parse_pattern_iff hbody).1 h
    exact .inr ⟨g, m.2, by rw [Rule.Matches, h, ← hg]⟩

/-- **The node that spans a text is that of a match which leaves nothing.** -/
theorem wholeNode_eq_ok_iff {r : Rule} (hr : r.Gathers) {s : List Char} {n : Node} :
    wholeNode r s = .ok n ↔ ∃ g, r.Matches s g [] ∧ n = ⟨r, 0, g⟩ := by
  constructor
  · intro h
    rcases hr.matches_or s with hnone | ⟨g, rest, hg⟩
    · rw [wholeNode_of_parse_eq_none hnone] at h
      cases h
    · rw [wholeNode_of_matches hg] at h
      split at h
      case isTrue hnil =>
        cases h
        exact ⟨g, hnil ▸ hg, rfl⟩
      case isFalse => cases h
  · rintro ⟨g, hg, rfl⟩
    rw [wholeNode_of_matches hg, if_pos rfl]

/-! ## Values at the front of a text -/

section Values

variable {α : Type} [Textual α] {s t mid rest : List Char} {v : α} {vs : List α} {sep : Pattern}

/-- The rule of a type matches at the front of a text, and its node has the value. -/
def Reads (s : List Char) (v : α) (rest : List Char) : Prop :=
  ∃ g, (Textual.rule α).Matches s g rest ∧ Textual.read ⟨Textual.rule α, 0, g⟩ = .ok v

/-- Values one after the other, each after a separator, up to where no further one is possible. -/
inductive Follow (sep : Pattern) : List Char → List α → List Char → Prop
  | stop {s : List Char} :
    (∀ f t, sep.parse s = some (f, t) → (Textual.rule α).pattern.parse t = none) → Follow sep s [] s
  | step {s t mid rest : List Char} {f : Forest} {v : α} {vs : List α} :
    sep.parse s = some (f, t) → Reads t v mid → Follow sep mid vs rest → Follow sep s (v :: vs) rest

/-- **A turn leaves the node of its value**, if what separates values leaves no such node. -/
theorem mapM_turn_iff [Structural α] {e f g : Forest} {start : Nat}
    (he : (e.nodes start).filter (·.rule = Textual.rule α) = []) :
    (((e ++ .node (Textual.rule α) g .nil ++ f).nodes start).filter
        (·.rule = Textual.rule α)).mapM Textual.read = .ok vs ↔
      ∃ v vs', Textual.read ⟨Textual.rule α, 0, g⟩ = .ok v ∧
        ((f.nodes (start + byteLength (e.toList ++ g.toList))).filter
          (·.rule = Textual.rule α)).mapM Textual.read = .ok vs' ∧ vs = v :: vs' := by
  have hnodes : ((e ++ .node (Textual.rule α) g .nil ++ f).nodes start).filter
      (·.rule = Textual.rule α) = ⟨Textual.rule α, start + byteLength e.toList, g⟩ ::
        (f.nodes (start + byteLength (e.toList ++ g.toList))).filter (·.rule = Textual.rule α) := by
    simp [Forest.nodes_append, he, Forest.nodes, Forest.toList]
  rw [hnodes, mapM_cons_eq_ok_iff]
  simp only [read_eq_ok_iff]

/-- Turns of separator and value leave the nodes of the values that follow. -/
theorem follow_of_repeats [Structural α] (hr : (Textual.rule α).Gathers)
    (hsep : Textual.rule α ∉ sep.tops.map Prod.fst) {f : Forest}
    (h : Pattern.Repeats (sep ++ (Textual.rule α).pattern) s f rest) {start : Nat}
    (hread : ((f.nodes start).filter (·.rule = Textual.rule α)).mapM Textual.read = .ok vs) :
    Follow sep s vs rest := by
  obtain ⟨body, hbody⟩ := hr
  induction h generalizing vs start with
  | stop hnone =>
    cases hread
    exact .stop (Pattern.parse_append_eq_none_iff.1 hnone)
  | step hstep _ ih =>
    obtain ⟨f₁, t, f₂, h₁, h₂, rfl⟩ := Pattern.parse_append_iff.1 hstep
    obtain ⟨g, hg, rfl⟩ := (Rule.parse_pattern_iff hbody).1 h₂
    obtain ⟨v, vs, hv, hvs, rfl⟩ :=
      (mapM_turn_iff (Pattern.filter_nodes_eq_nil h₁ hsep start)).1 hread
    exact .step h₁ ⟨g, hg, hv⟩ (ih hvs)

/-- Values that follow are the nodes of turns of separator and value. -/
theorem Follow.exists_repeats [Structural α] (hsep : Textual.rule α ∉ sep.tops.map Prod.fst)
    (h : Follow sep s vs rest) : ∃ f, Pattern.Repeats (sep ++ (Textual.rule α).pattern) s f rest ∧
      ∀ start, ((f.nodes start).filter (·.rule = Textual.rule α)).mapM Textual.read = .ok vs := by
  induction h with
  | stop hnone => exact ⟨.nil, .stop (Pattern.parse_append_eq_none_iff.2 hnone), fun _ => rfl⟩
  | step hsep' hv _ ih =>
    obtain ⟨f, hf, hread⟩ := ih
    obtain ⟨g, hg, hv⟩ := hv
    refine ⟨_, .step (Pattern.parse_append_iff.2 ⟨_, _, _, hsep', hg, rfl⟩) hf, fun start => ?_⟩
    exact (mapM_turn_iff (Pattern.filter_nodes_eq_nil hsep' hsep start)).2
      ⟨_, _, hv, hread _, rfl⟩

/-- Values one after the other leave the nodes of the first and of those that follow. -/
theorem items_iff [Structural α] (hr : (Textual.rule α).Gathers)
    (hsep : Textual.rule α ∉ sep.tops.map Prod.fst)
    (hproductive : (Textual.rule α).pattern.productive) :
    (∃ f, ((Textual.rule α).pattern ++ .many (sep ++ (Textual.rule α).pattern)).parse s =
        some (f, rest) ∧
      ((f.nodes 0).filter (·.rule = Textual.rule α)).mapM Textual.read = .ok vs) ↔
      ∃ v vs' mid, vs = v :: vs' ∧ Reads s v mid ∧ Follow sep mid vs' rest := by
  obtain ⟨body, hbody⟩ := hr
  have hturns : (sep ++ (Textual.rule α).pattern).productive :=
    Bool.or_eq_true_iff.2 (.inr hproductive)
  constructor
  · rintro ⟨_, hg, hlist⟩
    obtain ⟨_, mid, f₂, h₁, h₂, rfl⟩ := Pattern.parse_append_iff.1 hg
    obtain ⟨g, hfirst, rfl⟩ := (Rule.parse_pattern_iff hbody).1 h₁
    obtain ⟨v, vs, hv, hvs, rfl⟩ := (mapM_turn_iff (e := .nil) rfl).1 hlist
    exact ⟨v, vs, mid, rfl, ⟨g, hfirst, hv⟩,
      follow_of_repeats ⟨body, hbody⟩ hsep ((Pattern.parse_many_iff hturns).1 h₂) hvs⟩
  · rintro ⟨v, vs, mid, rfl, ⟨g, hg, hv⟩, hfollow⟩
    obtain ⟨f, hf, hvs⟩ := hfollow.exists_repeats hsep
    refine ⟨_, Pattern.parse_append_iff.2 ⟨_, _, _, hg, (Pattern.parse_many_iff hturns).2 hf, rfl⟩,
      ?_⟩
    exact (mapM_turn_iff (e := .nil) rfl).2 ⟨v, vs, hv, hvs _, rfl⟩

/-- **A list of values is the first of them and those that follow.** -/
theorem reads_list_iff [Structural α] [Textual (List α)] (hr : (Textual.rule α).Gathers)
    (hsep : Textual.rule α ∉ sep.tops.map Prod.fst)
    (hproductive : (Textual.rule α).pattern.productive)
    (hrule : (Textual.rule (List α)).pattern = .rule (Textual.rule (List α))
      ((Textual.rule α).pattern ++ .many (sep ++ (Textual.rule α).pattern)))
    (hread : ∀ n, (Textual.read n : Except Finding (List α)) =
      (n.childrenOf (Textual.rule α)).mapM Textual.read) :
    Reads s vs rest ↔ ∃ v vs' mid, vs = v :: vs' ∧ Reads s v mid ∧ Follow sep mid vs' rest := by
  rw [← items_iff hr hsep hproductive]
  simp only [Reads, Rule.matches_iff hrule, hread, Node.childrenOf, Node.children]

/-- A whole text has a value if the value is read and nothing is left. -/
theorem readText_eq_ok_iff (hr : (Textual.rule α).Gathers) :
    readText α s = .ok v ↔ Reads s v [] := by
  rw [readText, bind_eq_ok_iff]
  simp only [wholeNode_eq_ok_iff hr]
  constructor
  · rintro ⟨_, ⟨g, hg, rfl⟩, hv⟩
    exact ⟨g, hg, hv⟩
  · rintro ⟨g, hg, hv⟩
    exact ⟨_, ⟨g, hg, rfl⟩, hv⟩

/-- A source has a value if its text has; its name does not matter. -/
theorem parse_eq_ok_iff {source : Source} :
    parse α source = .ok v ↔ readText α source.text.toList = .ok v := by
  rw [parse]
  cases readText α source.text.toList <;> simp [Except.mapError]

end Values

end SceneText
