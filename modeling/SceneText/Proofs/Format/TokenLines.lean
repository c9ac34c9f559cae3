import SceneText.Proofs.Format.Language
import SceneText.Proofs.Format.Reads

/-!
# Proofs/Format/TokenLines — points, style lines and transforms

A point, a style or a transform that is read up to the end of a line is read from the words of that
line, and from nothing else (`reads_point_iff`, `reads_drawStyle_iff`, `reads_transform_iff`).
-/

namespace SceneText

variable {s rest w : List Char} {f g : Forest} {start : Nat}
  {ps : List (List Char × List Char)} {xs : List Float}

open Pattern

/-! ## Numbers -/

theorem readNumber_eq_ok_iff {n : Node} {x : Float} : readNumber n = .ok x ↔ Spells n.text x := by
  rw [readNumber, Spells]
  cases Numeral.read n.text with
  | none => simp
  | some y =>
    simp only [Option.map_some, Option.some.injEq]
    refine Iff.trans (b := finite? y = .ok x) ?_ (Binary64.finite?_eq_ok_iff.trans ?_)
    · cases finite? y <;> simp
    · constructor
      · rintro ⟨hy, rfl⟩
        exact ⟨rfl, hy⟩
      · rintro ⟨rfl, hx⟩
        exact ⟨hx, rfl⟩

/-- A word that spells a number is a run of number characters. -/
theorem Spells.isRun {x : Float} (h : Spells w x) : IsRun isNumberChar w := by
  refine ⟨?_, Numeral.numberChars_of_read h.1⟩
  rintro rfl
  have hnone : Numeral.read [] = none := by decide
  exact absurd (hnone.symm.trans h.1) (by simp)

theorem forall_isRun_of_spells {ws : List (List Char)} (h : List.Forall₂ Spells ws xs) :
    ∀ w ∈ ws, IsRun isNumberChar w := by
  induction h with
  | nil => simp
  | cons hw _ ih => exact List.forall_mem_cons.2 ⟨hw.isRun, ih⟩

/-- Nodes that hold words where numbers are due. -/
def NumberNodes (ns : List Node) (ws : List (List Char)) : Prop :=
  List.Forall₂ (fun n w => n.rule = .number ∧ n.inner = .run w) ns ws

/-- **The numbers in a node are those its words spell.** -/
theorem readNumbers_eq_ok_iff {n : Node} {ws : List (List Char)} (h : NumberNodes n.children ws) :
    readNumbers n = .ok xs ↔ List.Forall₂ Spells ws xs := by
  rw [readNumbers, Node.childrenOf]
  generalize n.children = ns at h
  induction h generalizing xs with
  | nil =>
    rw [List.filter_nil, List.forall₂_nil_left_iff]
    exact ⟨fun h => by cases h; rfl, fun h => by rw [h]; rfl⟩
  | cons hn _ ih =>
    rw [List.filter_cons_of_pos (by simpa using hn.1), mapM_cons_eq_ok_iff,
      List.forall₂_cons_left_iff]
    simp only [ih, readNumber_eq_ok_iff, Node.text, hn.2, Forest.toList_run]

/-! ## Lines of two tokens -/

/-- What a line of two tokens leaves. -/
def twoNodes (r r' : Rule) (b w : List Char) (q : List Char × List Char) (b' : List Char) :
    Forest :=
  .run b ++ .node r (.run w) (.run q.1 ++ .node r' (.run q.2) (.run b'))

/-- A line of two tokens leaves a node for each. -/
theorem exists_nodes_twoNodes (r r' : Rule) (b w : List Char) (q : List Char × List Char)
    (b' : List Char) (start : Nat) : ∃ k k', (twoNodes r r' b w q b').nodes start =
      [⟨r, k, .run w⟩, ⟨r', k', .run q.2⟩] := by
  simp [twoNodes, Forest.nodes_append, Forest.nodes]

/-- Two tokens of a class, with blanks around them, are taken for nodes of two rules. -/
def MatchesTwo (is : Char → Bool) (r r' : Rule) (s : List Char) (g : Forest) (rest : List Char) :
    Prop :=
  ∃ b w q b', s = b ++ (w ++ (gapped [q] ++ (b' ++ rest))) ∧ IsBlankLine b ∧ IsRun is w ∧
    IsLayout is [q] ∧ IsBlankLine b' ∧ Stops isBlank rest ∧ Stops is (b' ++ rest) ∧
    g = twoNodes r r' b w q b'

theorem AtLineEnd.stops_inWords {is : Char → Bool} (hrest : AtLineEnd rest) (his : InWords is) :
    Stops is rest :=
  hrest.stops fun c hc => by
    by_contra h
    rw [(his c (by simpa using h)).2] at hc
    cases hc

theorem AtLineEnd.stops_isBlank (hrest : AtLineEnd rest) : Stops isBlank rest :=
  hrest.stops isBlank_of_isLineBreak

/-- Blanks up to the end of a line end a token. -/
theorem AtLineEnd.stops_blanks_append {is : Char → Bool} {b : List Char} (hrest : AtLineEnd rest)
    (his : InWords is) (hb : IsBlankLine b) : Stops is (b ++ rest) := by
  cases b with
  | nil => exact hrest.stops_inWords his
  | cons c b =>
    refine stops_cons.2 ?_
    by_contra h
    have := hb c List.mem_cons_self
    rw [(his c (by simpa using h)).1] at this
    cases this

/-- **A value of two tokens that ends with its line is two words on it.** -/
theorem reads_two_iff {α : Type} [Textual α] {is : Char → Bool} {r r' : Rule} {a : α}
    {Spell : List Char → List Char → Prop} (his : InWords is)
    (hmatches : ∀ {s g rest}, (Textual.rule α).Matches s g rest ↔ MatchesTwo is r r' s g rest)
    (hread : ∀ {b w q b'}, Textual.read ⟨Textual.rule α, 0, twoNodes r r' b w q b'⟩ = .ok a ↔
      Spell w q.2)
    (hrun : ∀ {x y}, Spell x y → IsRun is x ∧ IsRun is y) (hrest : AtLineEnd rest) :
    Reads s a rest ↔ rest = afterLine s ∧ ∃ x y, words (firstLine s) = [x, y] ∧ Spell x y := by
  constructor
  · rintro ⟨g, hg, ha⟩
    obtain ⟨b, w, q, b', hs, hb, hw, hq, hb', -, -, rfl⟩ := hmatches.1 hg
    obtain ⟨hafter, hwords⟩ := firstLine_of_tokens his his hb hw hq hb' hrest hs
    exact ⟨hafter, w, q.2, hwords, hread.1 ha⟩
  · rintro ⟨rfl, x, y, hwords, hxy⟩
    obtain ⟨b, ps, b', hs, hb, hps, hb', hmap⟩ := exists_of_words_firstLine hwords
    obtain ⟨q, rfl, rfl⟩ := List.map_eq_singleton_iff.1 hmap.symm
    obtain ⟨hx, hy⟩ := hrun hxy
    exact ⟨_, hmatches.2 ⟨b, x, q, b', hs, hb, hx, hps.of_forall (by simpa using hy), hb',
      hrest.stops_isBlank, hrest.stops_blanks_append his hb', rfl⟩, hread.2 hxy⟩

/-! ## Points -/

theorem matches_point_iff :
    Rule.point.Matches s g rest ↔ MatchesTwo isNumberChar .number .number s g rest :=
  (Rule.matches_iff rfl).trans (parse_twoTokens_iff inWords_isNumberChar inWords_isNumberChar)

/-- A point is read from the nodes of two numbers. -/
theorem read_pointNodes_eq_ok_iff {p : Point Float} {b w b' : List Char}
    {q : List Char × List Char} :
    Textual.read ⟨.point, 0, twoNodes .number .number b w q b'⟩ = .ok p ↔
      Spells w p.x ∧ Spells q.2 p.y := by
  have hnodes : NumberNodes (Node.children ⟨.point, 0, twoNodes .number .number b w q b'⟩)
      [w, q.2] := by
    obtain ⟨k, k', hk⟩ := exists_nodes_twoNodes .number .number b w q b' 0
    rw [Node.children, hk]
    exact .cons ⟨rfl, rfl⟩ (.cons ⟨rfl, rfl⟩ .nil)
  simp only [Textual.read, bind_eq_ok_iff, readNumbers_eq_ok_iff hnodes]
  constructor
  · rintro ⟨xs, h, hp⟩
    obtain _ | ⟨hx, _ | ⟨hy, _ | _⟩⟩ := h
    cases hp
    exact ⟨hx, hy⟩
  · rintro ⟨hx, hy⟩
    exact ⟨[p.x, p.y], .cons hx (.cons hy .nil), rfl⟩

/-- **A point that ends with its line is two numbers on it.** -/
theorem reads_point_iff {p : Point Float} (hrest : AtLineEnd rest) :
    Reads s p rest ↔ rest = afterLine s ∧ PointLine (firstLine s) p :=
  reads_two_iff inWords_isNumberChar matches_point_iff read_pointNodes_eq_ok_iff
    (fun h => ⟨h.1.isRun, h.2.isRun⟩) hrest

/-! ## Style lines -/

theorem matches_drawStyle_iff :
    Rule.drawStyle.Matches s g rest ↔ MatchesTwo Char.isAlpha .styleName .colorName s g rest :=
  (Rule.matches_iff rfl).trans (parse_twoTokens_iff inWords_isAlpha inWords_isAlpha)

/-- A word is read as the member that it is the keyword of. -/
theorem readWord_eq_ok_iff {α : Type} {v : Vocabulary α} {unknown : String → Fault} {n : Node}
    {a : α} : readWord v unknown n = .ok a ↔ n.text = (v.keyword a).toList := by
  have hfound : readWord v unknown n = .ok a ↔ v.ofKeyword? (.ofList n.text) = some a := by
    rw [readWord]
    cases v.ofKeyword? (.ofList n.text) <;> simp
  rw [hfound, v.ofKeyword?_eq_some_iff, ← String.toList_inj, String.toList_ofList]

theorem Style.isRun_keyword (style : Style) : IsRun Char.isAlpha style.keyword.toList := by
  cases style <;> exact isRun_of_all rfl rfl

theorem Color.isRun_keyword (color : Color) : IsRun Char.isAlpha color.keyword.toList := by
  cases color <;> exact isRun_of_all rfl rfl

/-- A style is read from the nodes of two keywords. -/
theorem read_drawStyleNodes_eq_ok_iff {d : DrawStyle} {b w b' : List Char}
    {q : List Char × List Char} :
    Textual.read ⟨.drawStyle, 0, twoNodes .styleName .colorName b w q b'⟩ = .ok d ↔
      w = d.style.keyword.toList ∧ q.2 = d.color.keyword.toList := by
  obtain ⟨k, k', hk⟩ := exists_nodes_twoNodes .styleName .colorName b w q b' 0
  have hstyle : Node.child ⟨.drawStyle, 0, twoNodes .styleName .colorName b w q b'⟩ .styleName =
      .ok ⟨.styleName, k, .run w⟩ := by
    rw [Node.child, Node.childOf?, Node.children, hk]
    rfl
  have hcolor : Node.child ⟨.drawStyle, 0, twoNodes .styleName .colorName b w q b'⟩ .colorName =
      .ok ⟨.colorName, k', .run q.2⟩ := by
    rw [Node.child, Node.childOf?, Node.children, hk]
    rfl
  simp only [Textual.read, hstyle, hcolor, bind_eq_ok_iff, Except.ok.injEq, exists_eq_left',
    readWord_eq_ok_iff, Node.text, Forest.toList_run]
  constructor
  · rintro ⟨style, hw, color, hq, hd⟩
    cases hd
    exact ⟨hw, hq⟩
  · rintro ⟨hw, hq⟩
    exact ⟨_, hw, _, hq, rfl⟩

/-- **A style that ends with its line is two keywords on it.** -/
theorem reads_drawStyle_iff {d : DrawStyle} (hrest : AtLineEnd rest) :
    Reads s d rest ↔ rest = afterLine s ∧ StyleLine (firstLine s) d := by
  have hreads : Reads s d rest ↔ rest = afterLine s ∧ ∃ x y, words (firstLine s) = [x, y] ∧
      x = d.style.keyword.toList ∧ y = d.color.keyword.toList := by
    refine reads_two_iff inWords_isAlpha matches_drawStyle_iff read_drawStyleNodes_eq_ok_iff ?_ hrest
    rintro _ _ ⟨rfl, rfl⟩
    exact ⟨d.style.isRun_keyword, d.color.isRun_keyword⟩
  simpa [StyleLine] using hreads

/-! ## Transforms -/

/-- A pattern and numbers behind gaps. -/
def withOperands (p : Pattern) : Nat → Pattern
  | 0 => p
  | n + 1 => withOperands p n ++ gap ++ number

/-- What numbers behind gaps leave. -/
def operandNodes (ps : List (List Char × List Char)) : Forest :=
  ps.foldr (fun q f => .run q.1 ++ .node .number (.run q.2) f) .nil

@[simp] theorem operandNodes_nil : operandNodes [] = .nil := rfl

@[simp] theorem operandNodes_cons (q : List Char × List Char) (ps : List (List Char × List Char)) :
    operandNodes (q :: ps) = .run q.1 ++ .node .number (.run q.2) (operandNodes ps) := rfl

/-- How many numbers a form takes. -/
def TransformForm.arity : TransformForm → Nat
  | .rotate => 1
  | .scale => 2
  | .translate => 2

/-- **The forms of transforms are one pattern**: a tag, and as many numbers as the form takes. -/
theorem TransformForm.pattern_rule (form : TransformForm) : form.rule.pattern =
    .rule form.rule (withOperands (Pattern.text form.tag) form.arity) := by
  cases form <;> rfl

theorem operandNodes_concat (q : List Char × List Char) : operandNodes (ps ++ [q]) =
    operandNodes ps ++ (.run q.1 ++ .node .number (.run q.2) .nil) := by
  induction ps with
  | nil => rfl
  | cons q' ps ih =>
    rw [List.cons_append, operandNodes_cons, operandNodes_cons, ih, Forest.append_assoc,
      Forest.node_append]

theorem gapped_concat (q : List Char × List Char) : gapped (ps ++ [q]) = gapped ps ++ gapped [q] :=
  List.flatMap_append

/-- Numbers behind gaps are taken one after the other. -/
theorem parse_withOperands_iff {p : Pattern} {n : Nat} :
    (withOperands p n).parse s = some (f, rest) ↔
      ∃ f₀ ps, p.parse s = some (f₀, gapped ps ++ rest) ∧ ps.length = n ∧
        IsLayout isNumberChar ps ∧ (ps ≠ [] → Stops isNumberChar rest) ∧
        f = f₀ ++ operandNodes ps := by
  induction n generalizing f rest with
  | zero =>
    constructor
    · intro h
      exact ⟨f, [], h, rfl, by simp [IsLayout], by simp, (Forest.append_nil f).symm⟩
    · rintro ⟨f₀, ps, h, hlen, -, -, rfl⟩
      obtain rfl := List.length_eq_zero_iff.1 hlen
      rw [withOperands, operandNodes_nil, Forest.append_nil]
      simpa using h
  | succ n ih =>
    refine (parse_gap_token_iff inWords_isNumberChar).trans ?_
    simp only [ih]
    constructor
    · rintro ⟨_, q, ⟨f₀, ps, h, hlen, hps, -, rfl⟩, hq, hrest, rfl⟩
      refine ⟨f₀, ps ++ [q], ?_, by simp [hlen], List.forall_mem_append.2 ⟨hps, hq⟩, fun _ => hrest,
        ?_⟩
      · rw [h, gapped_concat, List.append_assoc]
      · rw [operandNodes_concat, Forest.append_assoc]
    · rintro ⟨f₀, ps, h, hlen, hps, hrest, rfl⟩
      obtain ⟨ps, q, rfl⟩ : ∃ ps' q, ps = ps' ++ [q] :=
        ⟨_, _, (List.dropLast_append_getLast (by rintro rfl; cases hlen)).symm⟩
      obtain ⟨hps, hq⟩ := List.forall_mem_append.1 hps
      refine ⟨_, q, ⟨f₀, ps, ?_, by simpa using hlen, hps, fun _ => ?_, rfl⟩, hq,
        hrest (by simp), ?_⟩
      · rw [h, gapped_concat, List.append_assoc]
      · exact stops_gapped_cons inWords_isNumberChar hq rest
      · rw [operandNodes_concat, Forest.append_assoc]

theorem matches_form_iff {form : TransformForm} : form.rule.Matches s g rest ↔
    ∃ ps, s = form.tag.toList ++ (gapped ps ++ rest) ∧ ps.length = form.arity ∧
      IsLayout isNumberChar ps ∧ Stops isNumberChar rest ∧
      g = .text form.tag.toList (operandNodes ps) := by
  rw [Rule.matches_iff form.pattern_rule, parse_withOperands_iff]
  simp only [Pattern.text, parse_word_iff]
  constructor
  · rintro ⟨_, ps, ⟨hs, rfl⟩, hlen, hps, hrest, rfl⟩
    refine ⟨ps, hs, hlen, hps, hrest ?_, rfl⟩
    rintro rfl
    cases form <;> cases hlen
  · rintro ⟨ps, hs, hlen, hps, hrest, rfl⟩
    exact ⟨_, ps, ⟨hs, rfl⟩, hlen, hps, fun _ => hrest, rfl⟩

/-- The tag decides which form is taken. -/
theorem parse_forms_iff : (rotate <|> scale <|> translate).parse s = some (f, rest) ↔
    ∃ form : TransformForm, form.rule.pattern.parse s = some (f, rest) := by
  constructor
  · intro h
    rcases parse_orElse_iff.1 h with h | ⟨-, h⟩
    · exact ⟨.rotate, h⟩
    · rcases parse_orElse_iff.1 h with h | ⟨-, h⟩
      · exact ⟨.scale, h⟩
      · exact ⟨.translate, h⟩
  · rintro ⟨form, h⟩
    obtain ⟨g, hg, -⟩ := (Rule.parse_pattern_iff form.pattern_rule).1 h
    obtain ⟨ps, rfl, -⟩ := matches_form_iff.1 hg
    cases form with
    | rotate => exact parse_orElse_iff.2 (.inl h)
    | scale => exact parse_orElse_iff.2 (.inr ⟨rfl, parse_orElse_iff.2 (.inl h)⟩)
    | translate => exact parse_orElse_iff.2 (.inr ⟨rfl, parse_orElse_iff.2 (.inr ⟨rfl, h⟩)⟩)

/-- What a line of a form leaves. -/
def formNodes (form : TransformForm) (b : List Char) (ps : List (List Char × List Char))
    (b' : List Char) : Forest :=
  .run b ++ .node form.rule (.text form.tag.toList (operandNodes ps)) (.run b')

theorem TransformForm.isRun_tag (form : TransformForm) : IsRun Char.isAlpha form.tag.toList := by
  cases form <;> exact isRun_of_all rfl rfl

theorem matches_transform_iff : Rule.transform.Matches s g rest ↔
    ∃ b form ps b', s = b ++ (form.tag.toList ++ (gapped ps ++ (b' ++ rest))) ∧ IsBlankLine b ∧
      ps.length = form.arity ∧ IsLayout isNumberChar ps ∧ IsBlankLine b' ∧ Stops isBlank rest ∧
      Stops isNumberChar (b' ++ rest) ∧ g = formNodes form b ps b' := by
  refine (Rule.matches_iff rfl).trans ?_
  constructor
  · intro h
    obtain ⟨_, _, _, h₁, h₂, rfl⟩ := parse_append_iff.1 h
    obtain ⟨b', rfl, hb', hrest, rfl⟩ := parse_blanks_iff.1 h₂
    obtain ⟨_, _, _, hblanks, hform, rfl⟩ := parse_append_iff.1 h₁
    obtain ⟨b, rfl, hb, -, rfl⟩ := parse_blanks_iff.1 hblanks
    obtain ⟨form, hform⟩ := parse_forms_iff.1 hform
    obtain ⟨_, hg, rfl⟩ := (Rule.parse_pattern_iff form.pattern_rule).1 hform
    obtain ⟨ps, rfl, hlen, hps, hstop, rfl⟩ := matches_form_iff.1 hg
    exact ⟨b, form, ps, b', rfl, hb, hlen, hps, hb', hrest, hstop,
      by simp [formNodes, Forest.append_assoc]⟩
  · rintro ⟨b, form, ps, b', rfl, hb, hlen, hps, hb', hrest, hstop, rfl⟩
    have hform := matches_form_iff.2 ⟨ps, rfl, hlen, hps, hstop, rfl⟩
    refine parse_append_iff.2 ⟨_, _, _, parse_append_iff.2 ⟨_, _, _, parse_blanks_iff.2
      ⟨b, rfl, hb, ?_, rfl⟩, parse_forms_iff.2 ⟨form, hform⟩, rfl⟩,
      parse_blanks_iff.2 ⟨b', rfl, hb', hrest, rfl⟩, by simp [formNodes, Forest.append_assoc]⟩
    exact form.isRun_tag.stops (fun c hc => (inWords_isAlpha c hc).1) _

theorem numberNodes_operandNodes (ps : List (List Char × List Char)) (start : Nat) :
    NumberNodes ((operandNodes ps).nodes start) (ps.map Prod.snd) := by
  induction ps generalizing start with
  | nil => exact .nil
  | cons q ps ih =>
    rw [operandNodes_cons, Forest.nodes_append, Forest.nodes_run, List.nil_append]
    exact .cons ⟨rfl, rfl⟩ (ih _)

/-- A line of a form leaves one node, which holds the numbers. -/
theorem exists_nodes_formNodes (form : TransformForm) (b : List Char)
    (ps : List (List Char × List Char)) (b' : List Char) (start : Nat) : ∃ k,
      (formNodes form b ps b').nodes start =
        [⟨form.rule, k, .text form.tag.toList (operandNodes ps)⟩] := by
  simp [formNodes, Forest.nodes_append, Forest.nodes]

theorem TransformForm.assemble?_eq_some_iff {form : TransformForm} {t : Transform Float} :
    form.assemble? xs = some t ↔ form = t.form ∧ xs = t.operands := by
  constructor
  · intro h
    cases form <;> rcases xs with _ | ⟨x, _ | ⟨y, _ | ⟨z, xs⟩⟩⟩ <;> cases h <;> exact ⟨rfl, rfl⟩
  · rintro ⟨rfl, rfl⟩
    exact assemble?_operands t

theorem Transform.length_operands (t : Transform Float) : t.operands.length = t.form.arity := by
  cases t <;> rfl

/-- A transform is read from the node of its form, which holds its numbers. -/
theorem read_formNodes_eq_ok_iff {t : Transform Float} {form : TransformForm} {b b' : List Char} :
    Textual.read ⟨.transform, 0, formNodes form b ps b'⟩ = .ok t ↔
      form = t.form ∧ List.Forall₂ Spells (ps.map Prod.snd) t.operands := by
  obtain ⟨k, hk⟩ := exists_nodes_formNodes form b ps b' 0
  have hnodes : NumberNodes (Node.children ⟨form.rule, k, .text form.tag.toList
    (operandNodes ps)⟩) (ps.map Prod.snd) := numberNodes_operandNodes ps _
  simp only [Textual.read, Node.children, hk, TransformForm.ofRule?_rule, TransformForm.read,
    bind_eq_ok_iff, readNumbers_eq_ok_iff hnodes]
  constructor
  · rintro ⟨xs, hxs, h⟩
    cases hassemble : form.assemble? xs with
    | none => simp [hassemble, throw, throwThe, MonadExceptOf.throw] at h
    | some t' =>
      rw [hassemble] at h
      cases h
      obtain ⟨rfl, rfl⟩ := TransformForm.assemble?_eq_some_iff.1 hassemble
      exact ⟨rfl, hxs⟩
  · rintro ⟨rfl, hxs⟩
    exact ⟨t.operands, hxs, by rw [TransformForm.assemble?_operands]; rfl⟩

/-- **A transform that ends with its line is a tag and numbers on it.** -/
theorem reads_transform_iff {t : Transform Float} (hrest : AtLineEnd rest) :
    Reads s t rest ↔ rest = afterLine s ∧ TransformLine (firstLine s) t := by
  constructor
  · rintro ⟨g, hg, ht⟩
    obtain ⟨b, form, ps, b', hs, hb, -, hps, hb', -, -, rfl⟩ := matches_transform_iff.1 hg
    obtain ⟨hafter, hwords⟩ := firstLine_of_tokens inWords_isAlpha inWords_isNumberChar
      hb form.isRun_tag hps hb' hrest hs
    obtain ⟨rfl, hxs⟩ := read_formNodes_eq_ok_iff.1 ht
    exact ⟨hafter, _, hwords, hxs⟩
  · rintro ⟨rfl, ws, hwords, hxs⟩
    obtain ⟨b, ps, b', hs, hb, hps, hb', rfl⟩ := exists_of_words_firstLine hwords
    have hlen : ps.length = t.form.arity := by
      rw [← t.length_operands, ← hxs.length_eq, List.length_map]
    exact ⟨_, matches_transform_iff.2 ⟨b, t.form, ps, b', hs, hb, hlen,
      hps.of_forall (forall_isRun_of_spells hxs), hb', hrest.stops_isBlank,
      hrest.stops_blanks_append inWords_isNumberChar hb', rfl⟩,
      read_formNodes_eq_ok_iff.2 ⟨rfl, hxs⟩⟩

end SceneText
