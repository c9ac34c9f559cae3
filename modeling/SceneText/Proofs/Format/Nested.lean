import SceneText.Proofs.Format.Tree

/-!
# Proofs/Format/Nested — what stands inside a node that a match has left

The nodes directly inside a node lie one behind the other (`Forest.pairwise_nodes`), and all that
stand inside it, at any depth, lie in its stretch (`Node.Within.stretch`).  Which rules can stand
inside a rule is read off its pattern (`Node.Matched.rule_mem`); the children of a style line, a
transform, a shape and a group are listed one by one.
-/

namespace SceneText

open Pattern

variable {s : List Char} {f : Forest} {n m c : Node} {r : Rule} {start : Nat}

/-! ## Stretches -/

/-- A record's nodes lie in its stretch. -/
theorem Forest.stretch_of_mem_nodes (hn : n ∈ f.nodes start) :
    start ≤ n.start ∧ n.stop ≤ start + byteLength f.toList := by
  induction f generalizing start with
  | nil => exact absurd hn List.not_mem_nil
  | text s f ih =>
    obtain ⟨hstart, hstop⟩ := ih hn
    rw [Forest.toList, byteLength_append]
    omega
  | node r i f _ ih =>
    rw [Forest.toList, byteLength_append]
    rcases List.mem_cons.1 hn with rfl | hn
    · simp only [Node.stop, Node.text]
      omega
    · obtain ⟨hstart, hstop⟩ := ih hn
      omega

/-- **A record's nodes lie one behind the other.** -/
theorem Forest.pairwise_nodes (f : Forest) (start : Nat) :
    (f.nodes start).Pairwise fun c d => c.stop ≤ d.start := by
  induction f generalizing start with
  | nil => exact .nil
  | text s f ih => exact ih _
  | node r i f _ ih => exact .cons (fun d hd => (Forest.stretch_of_mem_nodes hd).1) (ih _)

/-- **A node inside another lies in its stretch.** -/
theorem Node.Within.stretch (h : m.Within n) : n.start ≤ m.start ∧ m.stop ≤ n.stop := by
  induction h with
  | refl => exact ⟨le_rfl, le_rfl⟩
  | child hc _ ih =>
    obtain ⟨hstart, hstop⟩ := Forest.stretch_of_mem_nodes hc
    exact ⟨hstart.trans ih.1, ih.2.trans hstop⟩

/-- Inside a node stand itself and what stands inside its children. -/
theorem Node.within_iff : m.Within n ↔ m = n ∨ ∃ c ∈ n.children, m.Within c := by
  constructor
  · intro h
    cases h with
    | refl => exact .inl rfl
    | child hc h => exact .inr ⟨_, hc, h⟩
  · rintro (rfl | ⟨c, hc, h⟩)
    · exact .refl m
    · exact .child hc h

/-! ## Rules inside rules -/

/-- The rules that can stand directly inside a rule. -/
def Rule.parts (r : Rule) : List Rule :=
  match r.pattern with
  | .rule _ body => body.tops.map Prod.fst
  | _ => []

/-- A node that a match of its rule has left. -/
def Node.Matched (n : Node) : Prop := n.rule.Gathers ∧ ∃ s rest, n.rule.Matches s n.inner rest

/-- **The children of a node that a match has left** are such nodes too, of the rules that can stand
there. -/
theorem Node.Matched.child (h : n.Matched) (hc : c ∈ n.children) :
    c.Matched ∧ c.rule ∈ n.rule.parts := by
  obtain ⟨⟨body, hbody⟩, s, rest, hn⟩ := h
  obtain ⟨body', t, left, hmem, hparse⟩ :=
    leaves_of_mem_nodes ((Rule.matches_iff hbody).1 hn) hc
  have hown := (ownBodies_tops hbody).pattern_eq hmem
  refine ⟨⟨⟨body', hown⟩, t, left, (Rule.matches_iff hown).2 hparse⟩, ?_⟩
  rw [Rule.parts, hbody]
  exact List.mem_map_of_mem hmem

theorem Node.Matched.within (h : n.Matched) (hm : m.Within n) : m.Matched := by
  induction hm with
  | refl => exact h
  | child hc _ ih => exact ih (h.child hc).1

/-- Rules whose parts are among them are all that can stand inside. -/
theorem Node.Matched.rule_mem {rules : List Rule} (h : n.Matched) (hm : m.Within n)
    (hclosed : ∀ r ∈ rules, ∀ r' ∈ r.parts, r' ∈ rules) (hr : n.rule ∈ rules) :
    m.rule ∈ rules := by
  induction hm with
  | refl => exact hr
  | child hc _ ih =>
    obtain ⟨hmatched, hpart⟩ := h.child hc
    exact ih hmatched (hclosed _ hr _ hpart)

/-- A rule without parts leaves a node without children. -/
theorem Node.Matched.children_eq_nil (h : n.Matched) (hr : n.rule.parts = []) :
    n.children = [] := by
  refine List.eq_nil_iff_forall_not_mem.2 fun c hc => ?_
  have hpart := (h.child hc).2
  rw [hr] at hpart
  exact List.not_mem_nil hpart

/-! ## The children of nodes -/

theorem Node.childOf?_eq_some_of_children {r : Rule} {b after : List Node}
    (h : n.children = b ++ c :: after) (hc : c.rule = r) (hb : ∀ d ∈ b, d.rule ≠ r) :
    n.childOf? r = some c := by
  rw [childOf?, h, List.find?_append, List.find?_eq_none.2 (by simpa using hb), Option.none_or,
    List.find?_cons_of_pos (by simpa using hc)]

theorem Node.child_eq_ok {r : Rule} {b after : List Node} (h : n.children = b ++ c :: after)
    (hc : c.rule = r) (hb : ∀ d ∈ b, d.rule ≠ r) : n.child r = .ok c := by
  rw [child, childOf?_eq_some_of_children h hc hb]

namespace Node.Matched

theorem drawStyle_children (hn : n.Matched) (hr : n.rule = .drawStyle) :
    ∃ styleWord colorWord : Node, n.children = [styleWord] ++ [colorWord] ∧
      styleWord.rule = .styleName ∧ colorWord.rule = .colorName := by
  obtain ⟨r, start, g⟩ := n
  obtain rfl : r = .drawStyle := hr
  obtain ⟨-, s, rest, hmatch⟩ := hn
  obtain ⟨b, w, q, b', -, -, -, -, -, -, -, hg⟩ := matches_drawStyle_iff.1 hmatch
  obtain rfl : g = twoNodes .styleName .colorName b w q b' := hg
  obtain ⟨k, k', hk⟩ := exists_nodes_twoNodes .styleName .colorName b w q b' start
  exact ⟨_, _, hk, rfl, rfl⟩

theorem transform_children (hn : n.Matched) (hr : n.rule = .transform) :
    ∃ (form : TransformForm) (inner : Node), n.children = [inner] ∧ inner.rule = form.rule ∧
      (inner.childrenOf .number).length = form.arity := by
  obtain ⟨r, start, g⟩ := n
  obtain rfl : r = .transform := hr
  obtain ⟨-, s, rest, hmatch⟩ := hn
  obtain ⟨b, form, ps, b', -, -, hlen, -, -, -, -, hg⟩ := matches_transform_iff.1 hmatch
  obtain rfl : g = formNodes form b ps b' := hg
  obtain ⟨k, hk⟩ := exists_nodes_formNodes form b ps b' start
  refine ⟨form, _, hk, rfl, (numberNodes_operandNodes ps _).length_filter.trans ?_⟩
  rw [List.length_map, hlen]

theorem trailing_children (hn : n.Matched) (hr : n.rule = .trailingTransforms) :
    n.children = [] ∨ ∃ ending list : Node, n.children = [ending] ++ [list] ∧
      ending.rule = .lineEnd ∧ list.rule = .transforms := by
  obtain ⟨r, start, g⟩ := n
  obtain rfl : r = .trailingTransforms := hr
  obtain ⟨-, s, rest, hmatch⟩ := hn
  rcases matches_trailing_iff.1 hmatch with ⟨_, t, list, hend, -, hg⟩ | ⟨-, hg, -⟩
  · obtain ⟨brk, rfl⟩ := exists_nodes_of_parse_lineEnd hend
    obtain rfl : g = .node .lineEnd (.text brk .nil) (.node .transforms list .nil) := hg
    exact .inr ⟨_, _, rfl, rfl, rfl⟩
  · obtain rfl : g = .nil := hg
    exact .inl rfl

theorem shape_children (hn : n.Matched) (hr : n.rule = .shape) :
    ∃ (kind : ShapeKind) (keyword comment ending style trailing : Node),
      n.children = [keyword, comment, ending] ++ [style] ++ [trailing] ∧
      keyword.rule = kind.rule ∧ comment.rule = .comment ∧ ending.rule = .lineEnd ∧
      style.rule = .drawStyle ∧ trailing.rule = .trailingTransforms := by
  obtain ⟨r, start, g⟩ := n
  obtain rfl : r = .shape := hr
  obtain ⟨-, s, rest, hmatch⟩ := hn
  obtain ⟨kind, b, _, comment, _, brk, _, style, _, trailing, -, -, -, -, -, -, hg⟩ :=
    matches_shape_iff.1 hmatch
  obtain rfl : g = shapeNodes kind b comment brk style trailing := hg
  obtain ⟨k₁, k₂, k₃, k₄, k₅, hk⟩ := exists_nodes_shapeNodes kind b comment brk style trailing start
  exact ⟨kind, _, _, _, _, _, hk, rfl, rfl, rfl, rfl, rfl⟩

/-- A list of shapes has one at least. -/
theorem exists_shape (hn : n.Matched) (hr : n.rule = .shapes) :
    ∃ c ∈ n.children, c.rule = .shape := by
  obtain ⟨r, start, g⟩ := n
  obtain rfl : r = .shapes := hr
  obtain ⟨-, s, rest, hmatch⟩ := hn
  obtain ⟨_, mid, more, hfirst, -, hg⟩ := parse_append_iff.1 ((Rule.matches_iff rfl).1 hmatch)
  obtain ⟨first, -, rfl⟩ := (Rule.parse_pattern_iff (r := .shape) rfl).1 hfirst
  obtain rfl : g = .node .shape first more := hg
  exact ⟨_, List.mem_cons_self, rfl⟩

end Node.Matched

/-- **The header of a group without shapes**: its keyword behind spacing, and its name. -/
theorem header_of_groupNodes {t : List Char} {space comment trailing : Forest} {a c : List Char}
    (hspace : (many (blank <|> newline)).parse s = some (space, "group".toList ++ t))
    (hcomment : Rule.comment.Matches t comment a)
    (htrailing : Rule.trailingTransforms.Matches a trailing c) :
    (∀ c ∈ space.toList, isSpacing c) ∧ HeaderLine "group"
      (firstLine ("group".toList ++ (comment.toList ++ trailing.toList)))
      (readName ⟨.comment, 0, comment⟩) := by
  constructor
  · have hdrop := exists_parse_spacing_iff.1 ⟨space, hspace⟩
    have htext := toList_parse hspace
    rw [hdrop] at htext
    have htake : space.toList = s.takeWhile isSpacing :=
      List.append_cancel_right (htext.trans List.takeWhile_append_dropWhile.symm)
    rw [htake]
    exact fun c => of_mem_takeWhile
  · have hend : AtLineEnd trailing.toList := by
      rcases matches_trailing_iff.1 htrailing with ⟨_, u, list, hend, -, rfl⟩ | ⟨-, rfl, -⟩
      · obtain ⟨brk, hdrop, rfl, rfl⟩ := parse_lineEnd_iff.1 hend
        obtain ⟨brk', hbrk, hcases⟩ := dropLineEnd?_eq_some_iff.1 hdrop
        obtain rfl := List.append_cancel_right hbrk
        rcases hcases with rfl | rfl | ⟨rfl, -⟩ <;> exact stops_cons.2 rfl
      · exact atLineEnd_nil
    rw [firstLine_append_left isLineBreak_group]
    rcases matches_comment_iff.1 hcomment with ⟨b, u, -, hb, hu, -, rfl⟩ | ⟨-, -, rfl⟩
    · have hline : ∀ c ∈ b ++ firstLine u, isLineBreak c = false :=
        List.forall_mem_append.2 ⟨IsBlankLine.isLineBreak hb.2,
          fun c => isLineBreak_of_mem_firstLine⟩
      have htext : (Forest.run b ++ .node .name (.run (firstLine u)) .nil).toList =
          b ++ firstLine u := by simp [Forest.toList]
      rw [htext, firstLine_append hline hend, readName_run]
      refine ⟨[], _, rfl, isBlankLine_nil, hb.stops (fun c hc => by simp [hc]) _, ?_⟩
      rw [String.toList_ofList, dropWhile_append_of_stops hb.2 (stops_firstLine hu)]
    · rw [Forest.toList, List.nil_append, hend.firstLine]
      exact ⟨[], [], rfl, isBlankLine_nil, stops_nil, rfl⟩

/-- **The parts of a group**: its name, its transforms, and its shapes if there are some. -/
theorem Node.Matched.group_parts (hn : n.Matched) (hr : n.rule = .group) :
    ∃ (comment trailing : Node) (more : List Node),
      n.children = [comment] ++ [trailing] ++ more ∧
      comment.rule = .comment ∧ trailing.rule = .trailingTransforms ∧
      ((more = [] ∧ ∃ space text : List Char, n.text = space ++ ("group".toList ++ text) ∧
          (∀ c ∈ space, isSpacing c) ∧
          HeaderLine "group" (firstLine ("group".toList ++ text)) (readName comment)) ∨
        ∃ (endings : List Node) (list : Node), more = endings ++ [list] ∧
          (∀ c ∈ endings, c.rule = .lineEnd) ∧ list.rule = .shapes) := by
  obtain ⟨r, start, g⟩ := n
  obtain rfl : r = .group := hr
  obtain ⟨-, s, rest, hmatch⟩ := hn
  obtain ⟨space, t, comment, a, trailing, c, members, hspace, hcomment, htrailing, hmembers, hg⟩ :=
    matches_group_iff.1 hmatch
  obtain rfl : g = space ++ groupNodes comment trailing members := hg
  obtain ⟨k₁, k₂, k₃, hk⟩ :=
    exists_nodes_groupNodes (nodes_eq_nil hspace rfl start) comment trailing members
  refine ⟨⟨.comment, k₁, comment⟩, ⟨.trailingTransforms, k₂, trailing⟩, members.nodes k₃, hk, rfl,
    rfl, ?_⟩
  rcases parse_opt_iff.1 hmembers with h | ⟨-, rfl, -⟩
  · obtain ⟨e, u, _, hends, hshapes, rfl⟩ := parse_append_iff.1 h
    obtain ⟨list, -, rfl⟩ := (Rule.parse_pattern_iff (r := .shapes) rfl).1 hshapes
    refine .inr ⟨_, _, Forest.nodes_append _ _ k₃, fun c hc => ?_, rfl⟩
    obtain ⟨body, _, _, hmem, -⟩ := leaves_of_mem_nodes hends hc
    have htops : (oneOrMore lineEnd).tops.map Prod.fst = [.lineEnd, .lineEnd] := rfl
    simpa [htops] using List.mem_map_of_mem (f := Prod.fst) hmem
  · obtain ⟨hspacing, hheader⟩ := header_of_groupNodes hspace hcomment htrailing
    refine .inl ⟨rfl, space.toList, comment.toList ++ trailing.toList, ?_, hspacing, ?_⟩
    · simp [Node.text, groupNodes, Forest.toList]
    · rwa [readName_place]

/-- Inside names and transforms stand no shapes. -/
theorem Node.Matched.ne_shape (hn : n.Matched) (hr : n.rule ∈ [.comment, .trailingTransforms])
    (hm : m.Within n) : m.rule ≠ .shape := by
  let rules : List Rule := [.comment, .name, .trailingTransforms, .lineEnd, .transforms, .transform,
    .rotate, .scale, .translate, .number]
  have hsub : ∀ r ∈ [Rule.comment, .trailingTransforms], r ∈ rules := by decide
  have hclosed : ∀ r ∈ rules, ∀ r' ∈ r.parts, r' ∈ rules := by decide +kernel
  have hmem := hn.rule_mem hm hclosed (hsub _ hr)
  intro h
  rw [h] at hmem
  exact absurd hmem (by decide)

end SceneText
