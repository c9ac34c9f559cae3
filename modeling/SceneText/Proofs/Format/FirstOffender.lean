import SceneText.Proofs.Format.Offenders

/-!
# Proofs/Format/FirstOffender — the first offender is the one that is told

Each reader finds the first offender in what it reads: words one by one, lines, shapes and groups
from the words and lines they are made of.  So the error of a text that the grammar accepts is that
of the first offender in it (`parse_eq_first_offence`).
-/

namespace SceneText

open Pattern

variable {α β : Type} {g : Forest} {n m c : Node} {ns ms : List Node} {e : Finding}
  {x : Except Finding α}

/-! ## Words -/

/-- **A step that reads a word finds the first offender in it**, if it takes just the words that stand
for something, and has one finding for all others. -/
theorem findsFirst_word {Stands : α → Prop} (hn : n.Matched) (hr : n.rule.parts = [])
    (hok : ∀ a, x = .ok a ↔ Stands a) (herror : ∀ e', x = .error e' → e' = e)
    (hsound : ∀ a, Stands a → n.Sound) (hoffence : (∀ a, ¬ Stands a) → Offence n e) :
    FindsFirst x (OffendsIn [n]) := by
  have hself {m : Node} (hm : m.Within n) : m = n := by
    refine (Node.within_iff.1 hm).resolve_right ?_
    simp [hn.children_eq_nil hr]
  constructor
  · intro a ha m e hm
    obtain ⟨he, hm⟩ := offendsIn_singleton.1 hm
    obtain rfl := hself hm
    exact he.not_sound (hsound a ((hok a).1 ha))
  · intro e' he
    obtain rfl := herror e' he
    have hnone (a : α) : ¬ Stands a := fun ha => by
      rw [(hok a).2 ha] at he
      cases he
    exact ⟨n, offendsIn_singleton.2 ⟨hoffence hnone, .refl n⟩,
      fun m e' hm => .inl (hself (offendsIn_singleton.1 hm).2)⟩

theorem findsFirst_readNumber (hn : n.Matched) (hr : n.rule = .number) :
    FindsFirst (readNumber n) (OffendsIn [n]) := by
  refine findsFirst_word hn (by rw [hr]; rfl) (fun _ => readNumber_eq_ok_iff) (fun e he => ?_)
    (fun x hx => ⟨fun _ => ⟨x, hx⟩, by simp [hr], by simp [hr], by simp [hr]⟩) (.number hr)
  rw [readNumber] at he
  split at he
  · cases he
  · cases he
    rfl

/-- **A word of a vocabulary is the only offender in it**, if it is one. -/
theorem findsFirst_readWord {v : Vocabulary α} {unknown : String → Fault} (hn : n.Matched)
    (hr : n.rule.parts = []) (hsound : ∀ a, n.text = (v.keyword a).toList → n.Sound)
    (hoffence : (∀ a, n.text ≠ (v.keyword a).toList) → Offence n (.ofWord unknown n)) :
    FindsFirst (readWord v unknown n) (OffendsIn [n]) := by
  refine findsFirst_word hn hr (fun _ => readWord_eq_ok_iff) (fun e he => ?_) hsound hoffence
  rw [readWord] at he
  split at he
  · cases he
  · cases he
    rfl

theorem findsFirst_readStyle (hn : n.Matched) (hr : n.rule = .styleName) :
    FindsFirst (readWord Style.vocabulary .unknownStyle n) (OffendsIn [n]) :=
  findsFirst_readWord hn (by rw [hr]; rfl)
    (fun style h => ⟨by simp [hr], fun _ => ⟨style, h⟩, by simp [hr], by simp [hr]⟩) (.style hr)

theorem findsFirst_readColor (hn : n.Matched) (hr : n.rule = .colorName) :
    FindsFirst (readWord Color.vocabulary .unknownColor n) (OffendsIn [n]) :=
  findsFirst_readWord hn (by rw [hr]; rfl)
    (fun color h => ⟨by simp [hr], by simp [hr], fun _ => ⟨color, h⟩, by simp [hr]⟩) (.color hr)

/-! ## Lines and shapes -/

/-- What reads the children of one rule, in order, finds the first offender, if nothing offends in
the others. -/
theorem findsFirst_mapM_childrenOf {read : Node → Except Finding α} {q r : Rule} (hn : n.Matched)
    (hq : n.rule = q) (hself : q ∉ offenders) (hparts : ∀ r' ∈ q.parts, r' ≠ r → r' ∈ quiet)
    (hr : r ∈ .group :: belowGroups)
    (hread : ∀ c : Node, c.Matched → c.rule = r → FindsFirst (read c) (OffendsIn [c])) :
    FindsFirst ((n.childrenOf r).mapM read) (OffendsIn [n]) := by
  have hchildren : ∀ c ∈ n.childrenOf r, c.Matched ∧ c.rule = r := fun c hc => by
    obtain ⟨hmem, hrule⟩ := List.mem_filter.1 hc
    exact ⟨(hn.child hmem).1, by simpa using hrule⟩
  have horder : (n.childrenOf r).Pairwise fun c d => Precede (OffendsIn [c]) (OffendsIn [d]) := by
    refine (List.Pairwise.filter _ (n.inner.pairwise_nodes n.start)).imp_of_mem ?_
    intro c d hc hd hle
    obtain ⟨hc, hrc⟩ := hchildren c hc
    obtain ⟨hd, hrd⟩ := hchildren d hd
    refine precede_of_stop_le hc hd hle ?_
    rw [hrc, hrd]
    exact (List.mem_cons.1 hr).symm.imp (fun h => ⟨h, h⟩) fun h => ⟨h, h⟩
  refine (FindsFirst.mapM (fun c hc => hread c (hchildren c hc).1 (hchildren c hc).2)
    horder).congr fun m e => ?_
  rw [← offendsIn_children fun e he => hself (hq ▸ he.rule_mem)]
  refine offendsIn_filter (fun c hc => (hn.child hc).1) fun c hc hrule => ?_
  exact hparts _ (hq ▸ (hn.child hc).2) (by simpa using hrule)

/-- Nodes in which nothing offends may be left out before others. -/
theorem offendsIn_quiet_append (hns : ∀ n ∈ ns, n.Matched ∧ n.rule ∈ quiet) :
    OffendsIn (ns ++ ms) m e ↔ OffendsIn ms m e := by
  refine offendsIn_append.trans (or_iff_right ?_)
  rintro ⟨he, n, hn, hm⟩
  exact (hns n hn).1.not_offendsIn (hns n hn).2 (offendsIn_singleton.2 ⟨he, hm⟩)

/-- Two steps that read children one behind the other find the first offender in all of them. -/
theorem FindsFirst.bind_children {f : α → Except Finding β} {q : Rule} (hn : n.Matched)
    (hq : n.rule = q) (hparts : ∀ r ∈ q.parts, r ∈ belowGroups) (hchildren : n.children = ns ++ ms)
    (hx : FindsFirst x (OffendsIn ns)) (hf : ∀ a, x = .ok a → FindsFirst (f a) (OffendsIn ms)) :
    FindsFirst (x >>= f) (OffendsIn n.children) := by
  have hpairs := n.inner.pairwise_nodes n.start
  rw [← Node.children, hchildren, List.pairwise_append] at hpairs
  have hmem {c : Node} (hc : c ∈ ns ++ ms) : c.Matched ∧ c.rule ∈ belowGroups := by
    obtain ⟨hmatched, hpart⟩ := hn.child (hchildren ▸ hc)
    exact ⟨hmatched, hparts _ (hq ▸ hpart)⟩
  refine (hx.bind hf ?_).congr fun m e => by rw [hchildren, offendsIn_append]
  rintro m e m' e' ⟨he, c, hc, hm⟩ ⟨he', d, hd, hm'⟩
  obtain ⟨hc', hrc⟩ := hmem (List.mem_append_left _ hc)
  obtain ⟨hd', hrd⟩ := hmem (List.mem_append_right _ hd)
  exact precede_of_stop_le hc' hd' (hpairs.2.2 c hc d hd) (.inl ⟨hrc, hrd⟩) m e m' e'
    (offendsIn_singleton.2 ⟨he, hm⟩) (offendsIn_singleton.2 ⟨he', hm'⟩)

/-- The offenders of a node that is none are those of what reads its children. -/
theorem FindsFirst.of_children {q : Rule} (hx : FindsFirst x (OffendsIn n.children))
    (hq : n.rule = q) (hself : q ∉ offenders) : FindsFirst x (OffendsIn [n]) :=
  hx.congr fun _ _ => offendsIn_children fun _ he => hself (hq ▸ he.rule_mem)

theorem findsFirst_read_drawStyle (hn : n.Matched) (hr : n.rule = .drawStyle) :
    FindsFirst (Textual.read n : Except Finding DrawStyle) (OffendsIn [n]) := by
  obtain ⟨styleWord, colorWord, hchildren, hstyle, hcolor⟩ := hn.drawStyle_children hr
  have hmatched {c : Node} (hc : c ∈ [styleWord] ++ [colorWord]) : c.Matched :=
    (hn.child (hchildren ▸ hc)).1
  simp only [Textual.read, Node.child_eq_ok (b := []) hchildren hstyle (by simp),
    Node.child_eq_ok (b := [styleWord]) hchildren hcolor (by simp [hstyle])]
  change FindsFirst (readWord Style.vocabulary _ styleWord >>= fun style =>
    readWord Color.vocabulary _ colorWord >>= fun color =>
      (.ok ⟨style, color⟩ : Except Finding DrawStyle)) _
  refine .of_children (.bind_children hn hr (by decide) hchildren
    (findsFirst_readStyle (hmatched (by simp)) hstyle) fun style _ => ?_) hr (by decide)
  exact (findsFirst_readColor (hmatched (by simp)) hcolor).bind_ok fun color _ => ⟨_, rfl⟩

theorem findsFirst_read_transform (hn : n.Matched) (hr : n.rule = .transform) :
    FindsFirst (Textual.read n : Except Finding (Transform Float)) (OffendsIn [n]) := by
  obtain ⟨form, inner, hchildren, hinner, hlen⟩ := hn.transform_children hr
  have hmatched : inner.Matched := (hn.child (hchildren ▸ List.mem_singleton_self inner)).1
  have hnumbers : FindsFirst (readNumbers inner) (OffendsIn [inner]) := by
    refine findsFirst_mapM_childrenOf (q := form.rule) hmatched hinner ?_ ?_ (by decide)
      fun _ => findsFirst_readNumber
    · cases form <;> decide
    · cases form <;> decide
  have hread : (Textual.read n : Except Finding (Transform Float)) = form.read inner := by
    simp only [Textual.read, hchildren, hinner, TransformForm.ofRule?_rule]
  rw [hread]
  refine .of_children (hchildren ▸ hnumbers.bind_ok fun xs hxs => ?_) hr (by decide)
  obtain ⟨t, ht⟩ :=
    TransformForm.exists_assemble? ((length_eq_of_mapM_eq_ok hxs).trans hlen)
  exact ⟨t, by rw [ht]; rfl⟩

theorem findsFirst_readTrailing (hn : n.Matched) (hr : n.rule = .trailingTransforms) :
    FindsFirst (readTrailing n) (OffendsIn [n]) := by
  refine .of_children ?_ hr (by decide)
  rcases hn.trailing_children hr with hchildren | ⟨ending, list, hchildren, hending, hlist⟩
  · have hread : readTrailing n = .ok [] := by
      simp [readTrailing, readList, Node.childOf?, hchildren]
    rw [hread, hchildren]
    exact .ok [] (by simp [OffendsIn])
  · have hread : readTrailing n = Textual.read list := by
      simp [readTrailing, readList, Node.childOf?, hchildren, hending, hlist]
    have hmatched {c : Node} (hc : c ∈ [ending] ++ [list]) : c.Matched :=
      (hn.child (hchildren ▸ hc)).1
    have hlist' : FindsFirst (Textual.read list : Except Finding (List (Transform Float)))
        (OffendsIn [list]) :=
      findsFirst_mapM_childrenOf (hmatched (by simp)) hlist (by decide) (by decide) (by decide)
        fun _ => findsFirst_read_transform
    rw [hread, hchildren]
    have hquiet : ∀ c ∈ [ending], c.Matched ∧ c.rule ∈ quiet :=
      List.forall_mem_singleton.2 ⟨hmatched (by simp), by rw [hending]; decide⟩
    exact hlist'.congr fun m e => (offendsIn_quiet_append hquiet).symm

/-- A shape is read from its style line and its transforms. -/
theorem findsFirst_read_shape (hn : n.Matched) (hr : n.rule = .shape) :
    FindsFirst (Textual.read n : Except Finding (Shape Float)) (OffendsIn [n]) := by
  obtain ⟨kind, keyword, comment, ending, style, trailing, hchildren, hkeyword, hcomment, hending,
    hstyle, htrailing⟩ := hn.shape_children hr
  have hmatched {c : Node} (hc : c ∈ [keyword, comment, ending] ++ [style] ++ [trailing]) :
      c.Matched := (hn.child (hchildren ▸ hc)).1
  have hread : (Textual.read n : Except Finding (Shape Float)) =
      kind.assemble <$> readRecord n := by
    simp only [Textual.read, hchildren, List.cons_append, hkeyword, ShapeKind.ofRule?_rule]
  have hkeyword' : keyword.rule ∈ quiet ∧ keyword.rule ≠ .comment ∧ keyword.rule ≠ .drawStyle ∧
      keyword.rule ≠ .trailingTransforms := by
    rw [hkeyword]
    cases kind <;> decide
  have hrecord : readRecord n = Textual.read style >>= fun drawStyle => readTrailing trailing >>=
      fun transforms => .ok ⟨readName comment, drawStyle, transforms⟩ := by
    rw [readRecord, Node.child_eq_ok (b := [keyword]) hchildren hcomment (by simp [hkeyword']),
      Node.child_eq_ok (b := [keyword, comment, ending]) hchildren hstyle
        (by simp [hkeyword', hcomment, hending]),
      Node.child_eq_ok (b := [keyword, comment, ending] ++ [style]) hchildren htrailing
        (by simp [hkeyword', hcomment, hending, hstyle])]
    rfl
  have hquiet : ∀ c ∈ [keyword, comment, ending], c.Matched ∧ c.rule ∈ quiet := by
    refine List.forall_mem_cons.2 ⟨⟨hmatched (by simp), hkeyword'.1⟩, ?_⟩
    refine List.forall_mem_cons.2 ⟨⟨hmatched (by simp), by rw [hcomment]; decide⟩, ?_⟩
    exact List.forall_mem_singleton.2 ⟨hmatched (by simp), by rw [hending]; decide⟩
  rw [hread, hrecord]
  refine .of_children (FindsFirst.map (.bind_children hn hr (by decide) hchildren
    ((findsFirst_read_drawStyle (hmatched (by simp)) hstyle).congr fun m e =>
      (offendsIn_quiet_append hquiet).symm) fun drawStyle _ => ?_)) hr (by decide)
  exact (findsFirst_readTrailing (hmatched (by simp)) htrailing).bind_ok fun _ _ => ⟨_, rfl⟩

/-! ## Groups -/

theorem findsFirst_read_shapes (hn : n.Matched) (hr : n.rule = .shapes) :
    FindsFirst (Textual.read n : Except Finding (List (Shape Float))) (OffendsIn [n]) :=
  findsFirst_mapM_childrenOf hn hr (by decide) (by decide) (by decide)
    fun _ => findsFirst_read_shape

/-- The keyword of a group is found behind spacing. -/
theorem offsetOf?_group {space more : List Char} (hspace : ∀ c ∈ space, isSpacing c) :
    offsetOf? "group".toList (space ++ ("group".toList ++ more)) = some (byteLength space) := by
  induction space with
  | nil => rfl
  | cons c space ih =>
    obtain ⟨hc, hspace⟩ := List.forall_mem_cons.1 hspace
    have hne : 'g' ≠ c := by
      rintro rfl
      exact absurd hc (by decide)
    have hnone : "group".toList.isPrefixOf (c :: (space ++ ("group".toList ++ more))) = false := by
      change ('g' == c && _) = false
      rw [beq_eq_false_iff_ne.2 hne, Bool.false_and]
    rw [List.cons_append, offsetOf?, hnone, ih hspace]
    rfl

/-- A group without shapes is shown at its keyword. -/
theorem emptyGroup_eq {space more : List Char} {name : String}
    (htext : n.text = space ++ ("group".toList ++ more)) (hspace : ∀ c ∈ space, isSpacing c) :
    Finding.emptyGroup n name =
      ⟨.emptyGroup name, ⟨n.start + byteLength space, 5⟩⟩ := by
  rw [Finding.emptyGroup, htext, offsetOf?_group hspace]
  rfl

section Groups

variable {comment trailing list : Node} {more endings : List Node}

/-- A group's name and transforms are its first children. -/
theorem read_group_of_children (hchildren : n.children = [comment] ++ [trailing] ++ more)
    (hcomment : comment.rule = .comment) (htrailing : trailing.rule = .trailingTransforms) :
    (Textual.read n : Except Finding (Group Float)) =
      readTrailing trailing >>= fun transforms => readList .shapes n >>= fun shapes =>
        if shapes.isEmpty then .error (.emptyGroup n (readName comment))
        else .ok ⟨readName comment, transforms, shapes⟩ := by
  rw [read_group, Node.child_eq_ok (b := []) hchildren hcomment (by simp),
    Node.child_eq_ok (b := [comment]) hchildren htrailing (by simp [hcomment])]
  rfl

/-- A group's transforms hold all that offends in them and in its name. -/
theorem findsFirst_readTrailing_group (hn : n.Matched)
    (hchildren : n.children = [comment] ++ [trailing] ++ more) (hcomment : comment.rule = .comment)
    (htrailing : trailing.rule = .trailingTransforms) :
    FindsFirst (readTrailing trailing) (OffendsIn ([comment] ++ [trailing])) := by
  have hmatched {c : Node} (hc : c ∈ [comment] ++ [trailing]) : c.Matched :=
    (hn.child (hchildren ▸ List.mem_append_left more hc)).1
  have hquiet : ∀ c ∈ [comment], c.Matched ∧ c.rule ∈ quiet :=
    List.forall_mem_singleton.2 ⟨hmatched (by simp), by rw [hcomment]; decide⟩
  exact (findsFirst_readTrailing (hmatched (by simp)) htrailing).congr fun m e =>
    (offendsIn_quiet_append hquiet).symm

/-- In a group that has nothing but a name and transforms stands no shape. -/
theorem Node.Matched.not_within_shape (hn : n.Matched) (hr : n.rule = .group)
    (hchildren : n.children = [comment] ++ [trailing]) (hcomment : comment.rule = .comment)
    (htrailing : trailing.rule = .trailingTransforms) (hm : m.Within n) : m.rule ≠ .shape := by
  have hmatched {c : Node} (hc : c ∈ [comment] ++ [trailing]) : c.Matched :=
    (hn.child (hchildren ▸ hc)).1
  rcases Node.within_iff.1 hm with rfl | ⟨c, hc, hm⟩
  · simp [hr]
  · rw [hchildren, List.singleton_append, List.mem_pair] at hc
    rcases hc with rfl | rfl
    · exact (hmatched (by simp)).ne_shape (by simp [hcomment]) hm
    · exact (hmatched (by simp)).ne_shape (by simp [htrailing]) hm

/-- **A group without shapes offends itself**, behind all that offends in its transforms. -/
theorem findsFirst_emptyGroup (hn : n.Matched) (hr : n.rule = .group)
    (hchildren : n.children = [comment] ++ [trailing])
    (htransforms : FindsFirst (readTrailing trailing) (OffendsIn ([comment] ++ [trailing])))
    (hself : Offence n e) :
    FindsFirst (readTrailing trailing >>= fun _ => (.error e : Except Finding α))
      (OffendsIn [n]) := by
  refine (htransforms.bind (Q := fun m e => m = n ∧ Offence m e)
    (fun _ _ => .error ⟨rfl, hself⟩ fun m e h => .inl h.1) ?_).congr fun m e => ?_
  · rintro m e n' e' ⟨he, c, hc, hm⟩ ⟨rfl, -⟩
    obtain ⟨hmatched, hpart⟩ := hn.child (hchildren ▸ hc)
    have hbelow : ∀ r ∈ Rule.parts .group, r ∈ belowGroups := by decide
    have hlt := (place_of_offendsIn hmatched (hbelow _ (hr ▸ hpart))
      (offendsIn_singleton.2 ⟨he, hm⟩)).2
    have hle := (Node.Within.child (hchildren ▸ hc) (.refl c)).stretch.2
    have hplace : n'.place = n'.stop := if_pos hr
    omega
  · rw [offendsIn_self_or_children, hchildren]

/-- **A group with shapes does not offend itself**: it is read from its transforms and shapes. -/
theorem findsFirst_filledGroup {name : String} {failure : Finding} (hn : n.Matched)
    (hr : n.rule = .group) (hchildren : n.children = [comment] ++ [trailing] ++ (endings ++ [list]))
    (htransforms : FindsFirst (readTrailing trailing) (OffendsIn ([comment] ++ [trailing])))
    (hendings : ∀ c ∈ endings, c.rule = .lineEnd) (hlist : list.rule = .shapes) :
    FindsFirst (readTrailing trailing >>= fun transforms => Textual.read list >>= fun shapes =>
      if shapes.isEmpty then .error failure
      else (.ok ⟨name, transforms, shapes⟩ : Except Finding (Group Float))) (OffendsIn [n]) := by
  have hmatched {c : Node} (hc : c ∈ endings ++ [list]) : c.Matched :=
    (hn.child (hchildren ▸ List.mem_append_right _ hc)).1
  have hlist' : list.Matched := hmatched (by simp)
  obtain ⟨first, hfirst, hshape⟩ := hlist'.exists_shape hlist
  have hself (e : Finding) : ¬ Offence n e := by
    intro he
    cases he with
    | group _ hnoshape =>
      exact hnoshape first (.child (hchildren ▸ by simp) (.child hfirst (.refl _))) hshape
    | number hr' | style hr' | color hr' => simp [hr] at hr'
  have hshapes : FindsFirst (Textual.read list : Except Finding (List (Shape Float)))
      (OffendsIn (endings ++ [list])) := by
    refine (findsFirst_read_shapes hlist' hlist).congr fun m e =>
      (offendsIn_quiet_append fun c hc => ⟨hmatched (by simp [hc]), ?_⟩).symm
    rw [hendings c hc]
    decide
  refine (FindsFirst.bind_children hn hr (by decide) hchildren htransforms fun ts _ =>
    hshapes.bind_ok fun ss hss => ?_).congr fun m e => offendsIn_children hself
  have hne : ss ≠ [] := by
    rintro rfl
    have hlen := length_eq_of_mapM_eq_ok hss
    rw [List.length_nil, eq_comm, List.length_eq_zero_iff, Node.childrenOf,
      List.filter_eq_nil_iff] at hlen
    exact hlen first hfirst (by simpa using hshape)
  exact ⟨_, if_neg (by simpa using hne)⟩

end Groups

/-- **A group is read up to its first offender**, itself the last one. -/
theorem findsFirst_read_group (hn : n.Matched) (hr : n.rule = .group) :
    FindsFirst (Textual.read n : Except Finding (Group Float)) (OffendsIn [n]) := by
  obtain ⟨comment, trailing, more, hchildren, hcomment, htrailing, hmore⟩ := hn.group_parts hr
  have htransforms := findsFirst_readTrailing_group hn hchildren hcomment htrailing
  rw [read_group_of_children hchildren hcomment htrailing]
  rcases hmore with ⟨rfl, space, text, htext, hspace, hheader⟩ |
    ⟨endings, list, rfl, hendings, hlist⟩
  · have hmembers : (readList .shapes n : Except Finding (List (Shape Float))) = .ok [] := by
      simp [readList, Node.childOf?, hchildren, hcomment, htrailing]
    rw [List.append_nil] at hchildren
    have hself : Offence n (.emptyGroup n (readName comment)) := by
      rw [emptyGroup_eq htext hspace]
      exact .group hr (fun m => hn.not_within_shape hr hchildren hcomment htrailing) htext hspace
        hheader
    rw [hmembers]
    exact findsFirst_emptyGroup hn hr hchildren htransforms hself
  · have hnone : ∀ c ∈ [comment] ++ [trailing] ++ endings, c.rule ≠ .shapes := by
      refine List.forall_mem_append.2 ⟨by simp [hcomment, htrailing], fun c hc => ?_⟩
      rw [hendings c hc]
      decide
    have hmembers :
        (readList .shapes n : Except Finding (List (Shape Float))) = Textual.read list := by
      have hfind := Node.childOf?_eq_some_of_children (r := .shapes)
        (hchildren.trans (List.append_assoc _ _ _).symm) hlist hnone
      rw [readList, hfind]
    rw [hmembers]
    exact findsFirst_filledGroup hn hr hchildren htransforms hendings hlist

/-! ## Documents -/

theorem findsFirst_read_document (hn : n.Matched) (hr : n.rule = .document) :
    FindsFirst (Textual.read n : Except Finding (Document Float)) (OffendsIn [n]) :=
  (findsFirst_mapM_childrenOf hn hr (by decide) (by decide) (by decide)
    fun _ => findsFirst_read_group).map

/-! ## The first offender -/

/-- What shows an offender lies inside the text. -/
theorem Source.clamp_of_offence {source : Source} (hn : n.stop ≤ byteLength source.text.toList)
    (h : Offence n e) : source.clamp e.span = e.span := by
  obtain ⟨hoffset, hend⟩ := h.span_le
  have hmin : min e.span.offset (byteLength source.text.toList) = e.span.offset := by omega
  have hmin' : min e.span.length (byteLength source.text.toList - e.span.offset) =
      e.span.length := by omega
  rw [clamp, hmin, hmin']

/-- A text that is a document is read up to its first offender. -/
theorem findsFirst_readText {s : List Char} (h : Rule.document.Matches s g []) :
    FindsFirst (readText (Document Float) s) (OffendsIn [⟨.document, 0, g⟩]) := by
  have hread : readText (Document Float) s = Textual.read ⟨.document, 0, g⟩ := by
    rw [readText]
    exact congrArg (· >>= Textual.read) ((wholeNode_eq_ok_iff ⟨_, rfl⟩).2 ⟨g, h, rfl⟩)
  rw [hread]
  exact findsFirst_read_document ⟨⟨_, rfl⟩, _, _, h⟩ rfl

/-- Where nothing is wrong with a text, nothing in it offends. -/
theorem not_offence_of_parse_eq_ok {source : Source} {d : Document Float}
    (h : Rule.document.Matches source.text.toList g [])
    (hparse : parse (Document Float) source = .ok d) (hn : n.Within ⟨.document, 0, g⟩) :
    ¬ Offence n e := by
  have hfinds := findsFirst_readText h
  rw [parse] at hparse
  cases hresult : readText (Document Float) source.text.toList with
  | ok d' => exact fun he => hfinds.of_ok d' hresult n e (offendsIn_singleton.2 ⟨he, hn⟩)
  | error e =>
    rw [hresult] at hparse
    cases hparse

/-- What is wrong with a text that is a document is an offender in it. -/
theorem exists_offence_of_parse_eq_error {source : Source} {e : ParseError}
    (h : Rule.document.Matches source.text.toList g [])
    (hparse : parse (Document Float) source = .error e) :
    ∃ n : Node, n.Within ⟨.document, 0, g⟩ ∧ Offence n e.toFinding ∧ e.source = source := by
  have hfinds := findsFirst_readText h
  rw [parse] at hparse
  cases hresult : readText (Document Float) source.text.toList with
  | ok d =>
    rw [hresult] at hparse
    cases hparse
  | error e₀ =>
    obtain ⟨n, hn, -⟩ := hfinds.of_error e₀ hresult
    obtain ⟨he, hwithin⟩ := offendsIn_singleton.1 hn
    have hstop : (⟨.document, 0, g⟩ : Node).stop = byteLength source.text.toList := by
      have htext := toList_parse h
      simp only [Forest.toList, List.append_nil] at htext
      simp [Node.stop, Node.text, htext]
    have hclamp := Source.clamp_of_offence (hwithin.stretch.2.trans hstop.le) he
    rw [hresult] at hparse
    cases hparse
    exact ⟨n, hwithin, by simpa [Source.blame, hclamp] using he, rfl⟩

/-- **The first offender is told.**  A text that the grammar accepts is read if every word and group
in it has what its value needs.  Else the error is that of the offender that counts before all
others, whatever else offends. -/
theorem parse_eq_first_offence {source : Source}
    (h : Rule.document.Matches source.text.toList g []) :
    ((∃ d, parse (Document Float) source = .ok d) ↔
      ∀ n : Node, n.Within ⟨.document, 0, g⟩ → n.Sound) ∧
    ((¬ ∀ n : Node, n.Within ⟨.document, 0, g⟩ → n.Sound) →
      ∃ n e, n.Within ⟨.document, 0, g⟩ ∧ Offence n e ∧
        (∀ m : Node, m.Within ⟨.document, 0, g⟩ → ¬ m.Sound → m = n ∨ n.place < m.place) ∧
        parse (Document Float) source = .error ⟨e, source⟩) := by
  let root : Node := ⟨.document, 0, g⟩
  have hroot : root.Matched := ⟨⟨_, rfl⟩, _, _, h⟩
  have hstop : root.stop = byteLength source.text.toList := by
    have htext := toList_parse h
    simp only [Forest.toList, List.append_nil] at htext
    simp [root, Node.stop, Node.text, htext]
  have hread : readText (Document Float) source.text.toList = Textual.read root := by
    rw [readText]
    exact congrArg (· >>= Textual.read) ((wholeNode_eq_ok_iff ⟨_, rfl⟩).2 ⟨g, h, rfl⟩)
  have hsound : (∀ n : Node, n.Within root → n.Sound) ↔ ∀ n e, ¬ OffendsIn [root] n e := by
    simp only [offendsIn_singleton]
    constructor
    · exact fun hall n e hn => hn.1.not_sound (hall n hn.2)
    · exact fun hnone n hn => (hroot.within hn).sound_iff.2 fun e he => hnone n e ⟨he, hn⟩
  have hfinds := findsFirst_read_document hroot rfl
  rw [parse, hread]
  cases hresult : (Textual.read root : Except Finding (Document Float)) with
  | ok d =>
    have hall := hsound.2 (hfinds.of_ok d hresult)
    exact ⟨⟨fun _ => hall, fun _ => ⟨d, rfl⟩⟩, fun hnot => absurd hall hnot⟩
  | error e =>
    obtain ⟨n, hn, hfirst⟩ := hfinds.of_error e hresult
    have hnot : ¬ ∀ n : Node, n.Within root → n.Sound := fun hall => hsound.1 hall n e hn
    refine ⟨iff_of_false (by simp [Except.mapError]) hnot, fun _ => ?_⟩
    obtain ⟨he, hwithin⟩ := offendsIn_singleton.1 hn
    refine ⟨n, e, hwithin, he, fun m hm hunsound => ?_, ?_⟩
    · obtain ⟨e', he'⟩ : ∃ e', Offence m e' := by
        by_contra hnone
        exact hunsound ((hroot.within hm).sound_iff.2 (not_exists.1 hnone))
      exact hfirst m e' (offendsIn_singleton.2 ⟨he', hm⟩)
    · have hclamp := Source.clamp_of_offence (hwithin.stretch.2.trans hstop.le) he
      simp [Except.mapError, Source.blame, hclamp]

theorem parse_eq_first_offence_number :
    let g : Forest := .node .group (groupNodes (.run [' '] ++ .node .name (.run ['a']) .nil)
      (.node .lineEnd (.text ['\n'] .nil) (.node .transforms
        (.node .transform (formNodes .rotate [] [([' '], ['x'])] []) .nil) .nil)) .nil)
      (.node .endOfText .nil .nil)
    Rule.document.Matches "group a\nr x".toList g [] ∧
      ∃ n e, n.Within ⟨.document, 0, g⟩ ∧ Offence n e ∧
        (∀ m : Node, m.Within ⟨.document, 0, g⟩ → ¬ m.Sound → m = n ∨ n.place < m.place) ∧
        parse (Document Float) ⟨"scene", "group a\nr x"⟩ =
          .error ⟨e, ⟨"scene", "group a\nr x"⟩⟩ := by
  intro g
  have h : Rule.document.Matches "group a\nr x".toList g [] := by
    rw [Rule.Matches]
    decide +kernel
  have herror : parse (Document Float) ⟨"scene", "group a\nr x"⟩ =
      .error ⟨⟨.malformedNumber "x", ⟨10, 1⟩⟩, ⟨"scene", "group a\nr x"⟩⟩ := by
    decide +kernel
  have hfirst := @parse_eq_first_offence g ⟨"scene", "group a\nr x"⟩ h
  refine ⟨h, hfirst.2 fun hall => ?_⟩
  obtain ⟨d, hd⟩ := hfirst.1.2 hall
  rw [herror] at hd
  cases hd

end SceneText
