import SceneText.Proofs.Format.Nested

/-!
# Proofs/Format/Offenders — what offends in a scene that the grammar accepts

A word can stand for no number, style or color, and a group can have no shape.  `Offence` lists
these offenders, each with the finding that tells it, and `Node.place` puts them in order.
`FindsFirst` says that a step succeeds where nothing offends and else fails with the first offender;
steps one after the other do so if each does (`FindsFirst.bind`, `FindsFirst.mapM`).
-/

namespace SceneText

open Pattern

variable {α β : Type} {n m c d : Node} {ns ms : List Node} {e : Finding} {x : Except Finding α}
  {P Q : Node → Finding → Prop}

/-! ## Offenders -/

/-- **The offenders in a scene**: a word that spells no finite number or stands for no style or
color, and a group without a shape, whose keyword stands behind spacing and before its name. -/
inductive Offence : Node → Finding → Prop
  | number {n : Node} : n.rule = .number → (∀ x, ¬ Spells n.text x) → Offence n (.malformedNumber n)
  | style {n : Node} : n.rule = .styleName → (∀ style : Style, n.text ≠ style.keyword.toList) →
    Offence n (.unknownStyle n)
  | color {n : Node} : n.rule = .colorName → (∀ color : Color, n.text ≠ color.keyword.toList) →
    Offence n (.unknownColor n)
  | group {n : Node} {space more : List Char} {name : String} : n.rule = .group →
    (∀ m : Node, m.Within n → m.rule ≠ .shape) → n.text = space ++ ("group".toList ++ more) →
    (∀ c ∈ space, isSpacing c) → HeaderLine "group" (firstLine ("group".toList ++ more)) name →
      Offence n ⟨.emptyGroup name, ⟨n.start + byteLength space, 5⟩⟩

/-- **A node has what a value needs**: a word that spells a finite number or stands for a style or a
color, a group that has a shape. -/
structure Node.Sound (n : Node) : Prop where
  number : n.rule = .number → ∃ x, Spells n.text x
  style : n.rule = .styleName → ∃ style : Style, n.text = style.keyword.toList
  color : n.rule = .colorName → ∃ color : Color, n.text = color.keyword.toList
  group : n.rule = .group → ∃ m : Node, m.Within n ∧ m.rule = .shape

theorem Offence.not_sound (h : Offence n e) : ¬ n.Sound := by
  intro hn
  cases h with
  | number hr hnone =>
    obtain ⟨x, hx⟩ := hn.number hr
    exact hnone x hx
  | style hr hnone =>
    obtain ⟨style, hstyle⟩ := hn.style hr
    exact hnone style hstyle
  | color hr hnone =>
    obtain ⟨color, hcolor⟩ := hn.color hr
    exact hnone color hcolor
  | group hr hnone =>
    obtain ⟨m, hm, hshape⟩ := hn.group hr
    exact hnone m hm hshape

/-- A group without shapes offends. -/
theorem Node.Matched.exists_offence_group (hn : n.Matched) (hr : n.rule = .group)
    (hnone : ∀ m : Node, m.Within n → m.rule ≠ .shape) : ∃ e, Offence n e := by
  obtain ⟨comment, trailing, more, hchildren, -, -, hmore⟩ := hn.group_parts hr
  rcases hmore with ⟨-, space, text, htext, hspace, hheader⟩ | ⟨endings, list, rfl, -, hlist⟩
  · exact ⟨_, .group hr hnone htext hspace hheader⟩
  · have hmem : list ∈ n.children := hchildren ▸ by simp
    obtain ⟨first, hfirst, hshape⟩ := (hn.child hmem).1.exists_shape hlist
    exact absurd hshape (hnone first (.child hmem (.child hfirst (.refl first))))

/-- **What lacks what its value needs offends.** -/
theorem Node.Matched.sound_iff (hn : n.Matched) : n.Sound ↔ ∀ e, ¬ Offence n e := by
  constructor
  · exact fun h e he => he.not_sound h
  · intro h
    constructor
    · intro hr
      by_contra hnone
      exact h _ (.number hr (not_exists.1 hnone))
    · intro hr
      by_contra hnone
      exact h _ (.style hr (not_exists.1 hnone))
    · intro hr
      by_contra hnone
      exact h _ (.color hr (not_exists.1 hnone))
    · intro hr
      by_contra hnone
      obtain ⟨e, he⟩ := hn.exists_offence_group hr fun m hm hshape => hnone ⟨m, hm, hshape⟩
      exact h e he

/-- Where an offender counts: a group at its end, a word where it begins. -/
def Node.place (n : Node) : Nat := if n.rule = .group then n.stop else n.start

/-- The rules of offenders. -/
def offenders : List Rule := [.number, .styleName, .colorName, .group]

theorem Offence.rule_mem (h : Offence n e) : n.rule ∈ offenders := by
  cases h with
  | number hr => simp [offenders, hr]
  | style hr => simp [offenders, hr]
  | color hr => simp [offenders, hr]
  | group hr => simp [offenders, hr]

/-- **What tells an offender shows a stretch of it.** -/
theorem Offence.span_le (h : Offence n e) :
    n.start ≤ e.span.offset ∧ e.span.offset + e.span.length ≤ n.stop := by
  cases h with
  | number => exact ⟨le_rfl, le_rfl⟩
  | style => exact ⟨le_rfl, le_rfl⟩
  | color => exact ⟨le_rfl, le_rfl⟩
  | group _ _ htext _ _ =>
    have hkeyword : byteLength "group".toList = 5 := rfl
    simp only [Node.stop, htext, byteLength_append, hkeyword]
    omega

/-- An offender is not empty. -/
theorem Node.Matched.start_lt_stop (hn : n.Matched) (h : Offence n e) : n.start < n.stop := by
  obtain ⟨-, s, rest, hmatch⟩ := hn
  have hproductive : ∀ r ∈ offenders, r.pattern.productive := by decide
  have hlength := length_lt_of_productive (hproductive _ h.rule_mem) hmatch
  have hne : n.text ≠ [] := by
    have htext := congrArg List.length (toList_parse hmatch)
    intro hnil
    simp only [Forest.toList, List.append_nil, List.length_append] at htext
    rw [Node.text] at hnil
    rw [hnil, List.length_nil] at htext
    omega
  have hpos := mt byteLength_eq_zero_iff.1 hne
  rw [Node.stop]
  omega

/-- The offenders within some nodes. -/
def OffendsIn (ns : List Node) (m : Node) (e : Finding) : Prop :=
  Offence m e ∧ ∃ n ∈ ns, m.Within n

theorem offendsIn_append :
    OffendsIn (ns ++ ms) m e ↔ OffendsIn ns m e ∨ OffendsIn ms m e := by
  simp only [OffendsIn, List.mem_append, or_and_right, exists_or, and_or_left]

theorem offendsIn_singleton : OffendsIn [n] m e ↔ Offence m e ∧ m.Within n := by
  simp [OffendsIn]

/-- A node offends itself or within its children. -/
theorem offendsIn_self_or_children :
    OffendsIn [n] m e ↔ OffendsIn n.children m e ∨ m = n ∧ Offence m e := by
  rw [offendsIn_singleton, OffendsIn, Node.within_iff, and_or_left, or_comm, and_comm (b := m = n)]

/-- A node that does not offend has the offenders in its children. -/
theorem offendsIn_children (hn : ∀ e, ¬ Offence n e) :
    OffendsIn n.children m e ↔ OffendsIn [n] m e := by
  refine Iff.trans (or_iff_left ?_).symm offendsIn_self_or_children.symm
  rintro ⟨rfl, he⟩
  exact hn e he

/-! ## Nodes without offenders -/

/-- The rules inside which nothing offends, whatever their words. -/
def quiet : List Rule := [.endOfText, .lineEnd, .name, .comment, .unitSquare, .unitCircle]

/-- Inside names, keywords and line ends nothing offends. -/
theorem Node.Matched.not_offendsIn (hn : n.Matched) (hr : n.rule ∈ quiet) :
    ¬ OffendsIn [n] m e := by
  rw [offendsIn_singleton]
  rintro ⟨he, hm⟩
  have hquiet := hn.rule_mem hm (by decide) hr
  have hdisjoint : ∀ r ∈ offenders, r ∉ quiet := by decide
  exact hdisjoint _ he.rule_mem hquiet

/-- Nodes inside which nothing offends may be left out. -/
theorem offendsIn_filter {p : Node → Bool} (hns : ∀ n ∈ ns, n.Matched)
    (hquiet : ∀ n ∈ ns, p n = false → n.rule ∈ quiet) :
    OffendsIn (ns.filter p) m e ↔ OffendsIn ns m e := by
  constructor
  · rintro ⟨he, n, hn, hm⟩
    exact ⟨he, n, List.mem_of_mem_filter hn, hm⟩
  · rintro ⟨he, n, hn, hm⟩
    refine ⟨he, n, List.mem_filter.2 ⟨hn, ?_⟩, hm⟩
    by_contra hp
    exact (hns n hn).not_offendsIn (hquiet n hn (by simpa using hp))
      (offendsIn_singleton.2 ⟨he, hm⟩)

/-! ## The order of offenders -/

/-- Every offender of one kind counts before every one of the other. -/
def Precede (P Q : Node → Finding → Prop) : Prop :=
  ∀ m e m' e', P m e → Q m' e' → m.place < m'.place

/-- The rules inside which no group stands. -/
def belowGroups : List Rule := Rule.all.filter fun r => r ≠ .group ∧ r ≠ .document

/-- **Offenders inside a node that is no group count inside its stretch.** -/
theorem place_of_offendsIn (hn : n.Matched) (hr : n.rule ∈ belowGroups) (h : OffendsIn [n] m e) :
    n.start ≤ m.place ∧ m.place < n.stop := by
  obtain ⟨he, hm⟩ := offendsIn_singleton.1 h
  obtain ⟨hstart, hstop⟩ := hm.stretch
  have hlt := (hn.within hm).start_lt_stop he
  have hrule := hn.rule_mem hm (by decide) hr
  have hgroup : m.rule ≠ .group := by
    intro hg
    rw [hg] at hrule
    exact absurd hrule (by decide)
  rw [Node.place, if_neg hgroup]
  omega

/-- Inside a group everything stands behind the keyword. -/
theorem Node.Matched.start_lt_child (hn : n.Matched) (hr : n.rule = .group) (hc : c ∈ n.children) :
    n.start < c.start := by
  obtain ⟨r, start, g⟩ := n
  obtain rfl : r = .group := hr
  obtain ⟨-, s, rest, hmatch⟩ := hn
  obtain ⟨space, _, comment, _, trailing, _, members, hspace, -, -, -, hg⟩ :=
    matches_group_iff.1 hmatch
  obtain rfl : g = space ++ groupNodes comment trailing members := hg
  change c ∈ (space ++ groupNodes comment trailing members).nodes start at hc
  rw [Forest.nodes_append, nodes_eq_nil hspace rfl start, List.nil_append] at hc
  have hle := (Forest.stretch_of_mem_nodes (f := .node .comment comment
    (.node .trailingTransforms trailing members)) hc).1
  have hkeyword : 0 < byteLength "group".toList := by decide
  change start < c.start
  omega

/-- **Offenders inside a group count behind its start**, and not behind its end. -/
theorem place_of_offendsIn_group (hn : n.Matched) (hr : n.rule = .group) (h : OffendsIn [n] m e) :
    n.start < m.place ∧ m.place ≤ n.stop := by
  obtain ⟨he, hm⟩ := offendsIn_singleton.1 h
  rcases Node.within_iff.1 hm with rfl | ⟨c, hc, hm⟩
  · rw [Node.place, if_pos hr]
    exact ⟨hn.start_lt_stop he, le_rfl⟩
  · obtain ⟨hmatched, hpart⟩ := hn.child hc
    rw [hr] at hpart
    have hbelow : ∀ r ∈ Rule.parts .group, r ∈ belowGroups := by decide
    obtain ⟨hstart, hstop⟩ :=
      place_of_offendsIn hmatched (hbelow _ hpart) (offendsIn_singleton.2 ⟨he, hm⟩)
    have hchild := hn.start_lt_child hr hc
    have hend := (Node.Within.child hc (.refl c)).stretch.2
    omega

/-- What stands before a node offends before it, and so does a group before a group. -/
theorem precede_of_stop_le (hc : c.Matched) (hd : d.Matched) (h : c.stop ≤ d.start)
    (hr : c.rule ∈ belowGroups ∧ d.rule ∈ belowGroups ∨ c.rule = .group ∧ d.rule = .group) :
    Precede (OffendsIn [c]) (OffendsIn [d]) := by
  intro m e m' e' hm hm'
  rcases hr with ⟨hrc, hrd⟩ | ⟨hrc, hrd⟩
  · have := (place_of_offendsIn hc hrc hm).2
    have := (place_of_offendsIn hd hrd hm').1
    omega
  · have := (place_of_offendsIn_group hc hrc hm).2
    have := (place_of_offendsIn_group hd hrd hm').1
    omega

/-! ## Finding the first offender -/

/-- **A step finds the first offender**: it succeeds if there is none, and else fails with what
tells the one that counts before all others. -/
structure FindsFirst (x : Except Finding α) (P : Node → Finding → Prop) : Prop where
  of_ok : ∀ a, x = .ok a → ∀ m e, ¬ P m e
  of_error : ∀ e, x = .error e → ∃ n, P n e ∧ ∀ m e', P m e' → m = n ∨ n.place < m.place

namespace FindsFirst

theorem congr (h : FindsFirst x P) (hPQ : ∀ m e, P m e ↔ Q m e) : FindsFirst x Q := by
  obtain rfl : P = Q := funext₂ fun m e => propext (hPQ m e)
  exact h

/-- Where nothing offends, success finds that. -/
theorem ok (a : α) (h : ∀ m e, ¬ P m e) : FindsFirst (.ok a : Except Finding α) P where
  of_ok _ _ := h
  of_error _ := nofun

/-- A failure finds the offender that it tells. -/
theorem error (hn : P n e) (hfirst : ∀ m e', P m e' → m = n ∨ n.place < m.place) :
    FindsFirst (.error e : Except Finding α) P where
  of_ok _ := nofun
  of_error := by
    rintro _ ⟨⟩
    exact ⟨n, hn, hfirst⟩

/-- **Steps one after the other find the first offender**, if what offends the first counts before
what offends the second. -/
theorem bind {f : α → Except Finding β} (hx : FindsFirst x P)
    (hf : ∀ a, x = .ok a → FindsFirst (f a) Q) (hPQ : Precede P Q) :
    FindsFirst (x >>= f) fun m e => P m e ∨ Q m e := by
  cases x with
  | error e =>
    obtain ⟨n, hn, hfirst⟩ := hx.of_error e rfl
    refine error (n := n) (.inl hn) fun m e' h => ?_
    rcases h with h | h
    · exact hfirst m e' h
    · exact .inr (hPQ n e m e' hn h)
  | ok a =>
    have hnone := hx.of_ok a rfl
    exact (hf a rfl).congr fun m e => (or_iff_right (hnone m e)).symm

/-- A step that cannot fail adds nothing. -/
theorem bind_ok {f : α → Except Finding β} (hx : FindsFirst x P)
    (hf : ∀ a, x = .ok a → ∃ b, f a = .ok b) : FindsFirst (x >>= f) P := by
  refine (hx.bind (Q := fun _ _ => False) (fun a ha => ?_) (by simp [Precede])).congr (by simp)
  obtain ⟨b, hb⟩ := hf a ha
  rw [hb]
  exact ok b fun _ _ => id

theorem map {f : α → β} (hx : FindsFirst x P) : FindsFirst (f <$> x) P := by
  have h := hx.bind_ok (f := fun a => .ok (f a)) fun a _ => ⟨f a, rfl⟩
  cases x <;> exact h

/-- **Nodes that are read one after the other**, each up to its first offender, are read up to the
first of all. -/
theorem mapM {read : Node → Except Finding α}
    (hread : ∀ n ∈ ns, FindsFirst (read n) (OffendsIn [n]))
    (horder : ns.Pairwise fun c d => Precede (OffendsIn [c]) (OffendsIn [d])) :
    FindsFirst (ns.mapM read) (OffendsIn ns) := by
  induction horder with
  | nil => exact ok [] (by simp [OffendsIn])
  | @cons n ns hn _ ih =>
    obtain ⟨hfirst, hmore⟩ := List.forall_mem_cons.1 hread
    have hlater : Precede (OffendsIn [n]) (OffendsIn ns) := by
      rintro m e m' e' hm ⟨he', d, hd, hm'⟩
      exact hn d hd m e m' e' hm (offendsIn_singleton.2 ⟨he', hm'⟩)
    rw [List.mapM_cons]
    refine (hfirst.bind (fun a _ => (ih hmore).bind_ok fun as _ => ⟨a :: as, rfl⟩) hlater).congr
      fun m e => ?_
    exact offendsIn_append.symm

end FindsFirst

end SceneText
