import SceneText.Proofs.Format.Part

/-!
# Proofs/Format/Tree — what a match leaves is what the readers look up

Every node that a match leaves, at whatever depth, comes from a match of its own rule
(`exists_matches_of_within`), so it has the children that its reader looks up (`fits_of_matches`).
Such a node is refused only for a word that stands for no value or for a group without shapes
(`onlyValueFaults_read`), never for a child that is missing or out of place.
-/

namespace SceneText

open Pattern

variable {s rest : List Char} {g : Forest} {n m c : Node} {r : Rule}

/-! ## Nodes inside nodes -/

/-- A node is another one or stands inside it, at any depth. -/
inductive Node.Within : Node → Node → Prop
  | refl (n : Node) : Within n n
  | child {m c n : Node} : c ∈ n.children → Within m c → Within m n

/-- Rules stand with their own bodies. -/
def OwnBodies : List (Rule × Pattern) → Prop
  | [] => True
  | q :: qs => q.1.pattern = .rule q.1 q.2 ∧ OwnBodies qs

theorem OwnBodies.pattern_eq {qs : List (Rule × Pattern)} (h : OwnBodies qs) {body : Pattern}
    (hq : (r, body) ∈ qs) : r.pattern = .rule r body := by
  induction qs with
  | nil => exact absurd hq List.not_mem_nil
  | cons q qs ih =>
    rcases List.mem_cons.1 hq with rfl | hq
    · exact h.1
    · exact ih h.2 hq

/-- Whatever rules can stand outermost in the body of a rule stand with their own bodies. -/
theorem ownBodies_tops {body : Pattern} (hr : r.pattern = .rule r body) : OwnBodies body.tops := by
  -- rule by rule, the outermost rules of a body are a list that computes
  cases r <;> cases hr <;> repeat first | exact trivial | refine ⟨rfl, ?_⟩

/-- **Every node of a match comes from a match of its own rule.** -/
theorem exists_matches_of_within (h : m.Within n) (hgathers : n.rule.Gathers)
    (hn : n.rule.Matches s n.inner rest) : ∃ t left, m.rule.Matches t m.inner left := by
  induction h generalizing s rest with
  | refl => exact ⟨s, rest, hn⟩
  | child hc _ ih =>
    obtain ⟨body, hbody⟩ := hgathers
    obtain ⟨body', t, left, hmem, hparse⟩ :=
      leaves_of_mem_nodes ((Rule.matches_iff hbody).1 hn) hc
    have hown := (ownBodies_tops hbody).pattern_eq hmem
    exact ih ⟨body', hown⟩ ((Rule.matches_iff hown).2 hparse)

/-! ## The children that readers look up -/

/-- A child of a rule is found. -/
def Node.Has (n : Node) (r : Rule) : Prop := ∃ c, n.child r = .ok c

/-- **A node has the children that its reader looks up**: a point two numbers, a transform a form
with as many numbers as it takes, a shape its keyword first, and each the parts it is read from. -/
def Node.Fits (n : Node) : Prop :=
  match n.rule with
  | .point => (n.childrenOf .number).length = 2
  | .transform => ∃ form inner more, n.children = inner :: more ∧
      inner.rule = TransformForm.rule form ∧ (inner.childrenOf .number).length = form.arity
  | .drawStyle => n.Has .styleName ∧ n.Has .colorName
  | .shape => (∃ kind keyword more, n.children = keyword :: more ∧
      keyword.rule = ShapeKind.rule kind) ∧ n.Has .comment ∧ n.Has .drawStyle ∧
        n.Has .trailingTransforms
  | .group => n.Has .comment ∧ n.Has .trailingTransforms
  | _ => True

theorem Node.childOf?_eq_some (h : n.childOf? r = some c) : c ∈ n.children ∧ c.rule = r :=
  ⟨List.mem_of_find?_eq_some h, by simpa using List.find?_some h⟩

/-- A child is found if one has the rule. -/
theorem Node.has_of_children {ns : List Node} (h : n.children = ns) (hr : r ∈ ns.map Node.rule) :
    n.Has r := by
  obtain ⟨c, hc, hrule⟩ := List.mem_map.1 hr
  rw [Has, child, childOf?, h]
  cases hfind : ns.find? (·.rule = r) with
  | some c' => exact ⟨c', rfl⟩
  | none => exact absurd hrule (by simpa using List.find?_eq_none.1 hfind c hc)

/-- What is found is a child of the rule. -/
theorem Node.Has.exists_child (h : n.Has r) : ∃ c ∈ n.children, c.rule = r ∧ n.child r = .ok c := by
  obtain ⟨c, hc⟩ := h
  rw [child] at hc ⊢
  cases hfind : n.childOf? r with
  | none =>
    rw [hfind] at hc
    cases hc
  | some c' =>
    obtain ⟨hmem, hrule⟩ := childOf?_eq_some hfind
    exact ⟨c', hmem, hrule, rfl⟩

theorem NumberNodes.length_filter {ns : List Node} {ws : List (List Char)} (h : NumberNodes ns ws) :
    (ns.filter (·.rule = .number)).length = ws.length := by
  induction h with
  | nil => rfl
  | cons hn _ ih =>
    rw [List.filter_cons_of_pos (by simpa using hn.1), List.length_cons, ih, List.length_cons]

/-- **What a match leaves has the children that are looked up in it.** -/
theorem fits_of_matches (h : n.rule.Matches s n.inner rest) : n.Fits := by
  obtain ⟨r, start, g⟩ := n
  cases r with
  | point =>
    obtain ⟨b, w, q, b', -, -, -, -, -, -, -, rfl⟩ := matches_point_iff.1 h
    obtain ⟨k, k', hk⟩ := exists_nodes_twoNodes .number .number b w q b' start
    have hnodes : NumberNodes ((twoNodes .number .number b w q b').nodes start) [w, q.2] := by
      rw [hk]
      exact .cons ⟨rfl, rfl⟩ (.cons ⟨rfl, rfl⟩ .nil)
    exact hnodes.length_filter
  | transform =>
    obtain ⟨b, form, ps, b', -, -, hlen, -, -, -, -, rfl⟩ := matches_transform_iff.1 h
    obtain ⟨k, hk⟩ := exists_nodes_formNodes form b ps b' start
    refine ⟨form, _, _, hk, rfl, (numberNodes_operandNodes ps _).length_filter.trans ?_⟩
    rw [List.length_map, hlen]
  | drawStyle =>
    obtain ⟨b, w, q, b', -, -, -, -, -, -, -, rfl⟩ := matches_drawStyle_iff.1 h
    obtain ⟨k, k', hk⟩ := exists_nodes_twoNodes .styleName .colorName b w q b' start
    exact ⟨Node.has_of_children hk (by simp), Node.has_of_children hk (by simp)⟩
  | shape =>
    obtain ⟨kind, b, _, comment, _, brk, _, style, _, trailing, -, -, -, -, -, -, rfl⟩ :=
      matches_shape_iff.1 h
    obtain ⟨k₁, k₂, k₃, k₄, k₅, hk⟩ :=
      exists_nodes_shapeNodes kind b comment brk style trailing start
    exact ⟨⟨kind, _, _, hk, rfl⟩, Node.has_of_children hk (by simp),
      Node.has_of_children hk (by simp), Node.has_of_children hk (by simp)⟩
  | group =>
    obtain ⟨space, _, comment, _, trailing, _, members, hspace, -, -, -, rfl⟩ :=
      matches_group_iff.1 h
    obtain ⟨k₁, k₂, k₃, hk⟩ :=
      exists_nodes_groupNodes (nodes_eq_nil hspace rfl start) comment trailing members
    exact ⟨Node.has_of_children hk (by simp), Node.has_of_children hk (by simp)⟩
  | _ => trivial

/-! ## Refusals -/

/-- A fault of a value: a word that stands for none, or a group without shapes. -/
def Fault.OfValue : Fault → Prop
  | .malformedNumber _ => True
  | .unknownStyle _ => True
  | .unknownColor _ => True
  | .emptyGroup _ => True
  | .unexpected _ _ => False
  | .missingSeparator => False

section Steps

variable {α β : Type} {x : Except Finding α}

/-- A step fails for faults of values only. -/
def OnlyValueFaults (x : Except Finding α) : Prop := ∀ e, x = .error e → e.fault.OfValue

theorem onlyValueFaults_ok (a : α) : OnlyValueFaults (.ok a) := by
  rintro _ ⟨⟩

theorem onlyValueFaults_error {e : Finding} (h : e.fault.OfValue) :
    OnlyValueFaults (.error e : Except Finding α) := by
  rintro _ ⟨⟩
  exact h

theorem OnlyValueFaults.bind {f : α → Except Finding β} (hx : OnlyValueFaults x)
    (hf : ∀ a, x = .ok a → OnlyValueFaults (f a)) : OnlyValueFaults (x >>= f) := by
  cases x with
  | error e => exact onlyValueFaults_error (hx e rfl)
  | ok a => exact hf a rfl

theorem OnlyValueFaults.map {f : α → β} (hx : OnlyValueFaults x) : OnlyValueFaults (f <$> x) := by
  cases x with
  | error e => exact onlyValueFaults_error (hx e rfl)
  | ok a => exact onlyValueFaults_ok (f a)

theorem onlyValueFaults_mapM {read : Node → Except Finding α} {ns : List Node}
    (h : ∀ n ∈ ns, OnlyValueFaults (read n)) : OnlyValueFaults (ns.mapM read) := by
  induction ns with
  | nil => exact onlyValueFaults_ok []
  | cons n ns ih =>
    obtain ⟨hn, hns⟩ := List.forall_mem_cons.1 h
    rw [List.mapM_cons]
    exact hn.bind fun a _ => (ih hns).bind fun as _ => onlyValueFaults_ok (a :: as)

theorem length_eq_of_mapM_eq_ok {read : Node → Except Finding α} {ns : List Node} {as : List α}
    (h : ns.mapM read = .ok as) : as.length = ns.length := by
  induction ns generalizing as with
  | nil =>
    cases h
    rfl
  | cons n ns ih =>
    obtain ⟨a, as, -, has, rfl⟩ := mapM_cons_eq_ok_iff.1 h
    rw [List.length_cons, List.length_cons, ih has]

end Steps

/-! ## Reading nodes that fit -/

/-- A node and all inside it have the children that are looked up in them. -/
def Node.AllFit (n : Node) : Prop := ∀ m : Node, m.Within n → m.Fits

theorem Node.AllFit.fits (h : n.AllFit) : n.Fits := h n (.refl n)

theorem Node.AllFit.child (h : n.AllFit) (hc : c ∈ n.children) : c.AllFit :=
  fun m hm => h m (.child hc hm)

/-- A child that is found is read. -/
theorem Node.AllFit.child_bind {α : Type} {f : Node → Except Finding α} (h : n.AllFit)
    (hhas : n.Has r) (hf : ∀ c, c.rule = r → c.AllFit → OnlyValueFaults (f c)) :
    OnlyValueFaults (n.child r >>= f) := by
  obtain ⟨c, hmem, hrule, hc⟩ := hhas.exists_child
  rw [hc]
  exact hf c hrule (h.child hmem)

theorem onlyValueFaults_readNumbers (n : Node) : OnlyValueFaults (readNumbers n) := by
  refine onlyValueFaults_mapM fun m _ => ?_
  rw [readNumber]
  split
  · exact onlyValueFaults_ok _
  · exact onlyValueFaults_error trivial

theorem onlyValueFaults_read_point (hr : n.rule = .point) (h : n.AllFit) :
    OnlyValueFaults (Textual.read n : Except Finding (Point Float)) := by
  have htwo := h.fits
  rw [Node.Fits, hr] at htwo
  refine (onlyValueFaults_readNumbers n).bind fun xs hxs => ?_
  obtain ⟨x, y, rfl⟩ := List.length_eq_two.1 ((length_eq_of_mapM_eq_ok hxs).trans htwo)
  exact onlyValueFaults_ok _

theorem TransformForm.exists_assemble? {form : TransformForm} {xs : List Float}
    (h : xs.length = form.arity) : ∃ t, form.assemble? xs = some t := by
  cases form with
  | rotate =>
    obtain ⟨x, rfl⟩ := List.length_eq_one_iff.1 h
    exact ⟨_, rfl⟩
  | scale =>
    obtain ⟨x, y, rfl⟩ := List.length_eq_two.1 h
    exact ⟨_, rfl⟩
  | translate =>
    obtain ⟨x, y, rfl⟩ := List.length_eq_two.1 h
    exact ⟨_, rfl⟩

theorem onlyValueFaults_read_transform (hr : n.rule = .transform) (h : n.AllFit) :
    OnlyValueFaults (Textual.read n : Except Finding (Transform Float)) := by
  have hform := h.fits
  rw [Node.Fits, hr] at hform
  obtain ⟨form, inner, more, hchildren, hinner, hlen⟩ := hform
  simp only [Textual.read, hchildren, hinner, TransformForm.ofRule?_rule]
  refine (onlyValueFaults_readNumbers inner).bind fun xs hxs => ?_
  obtain ⟨t, ht⟩ := TransformForm.exists_assemble? ((length_eq_of_mapM_eq_ok hxs).trans hlen)
  rw [ht]
  exact onlyValueFaults_ok t

theorem onlyValueFaults_readWord {α : Type} {v : Vocabulary α} (unknown : String → Fault)
    (hunknown : ∀ word, (unknown word).OfValue) (n : Node) :
    OnlyValueFaults (readWord v unknown n) := by
  rw [readWord]
  split
  · exact onlyValueFaults_ok _
  · exact onlyValueFaults_error (hunknown _)

theorem onlyValueFaults_read_drawStyle (hr : n.rule = .drawStyle) (h : n.AllFit) :
    OnlyValueFaults (Textual.read n : Except Finding DrawStyle) := by
  have hwords := h.fits
  rw [Node.Fits, hr] at hwords
  refine h.child_bind hwords.1 fun styleWord _ _ => h.child_bind hwords.2 fun colorWord _ _ => ?_
  refine (onlyValueFaults_readWord .unknownStyle (fun _ => trivial) styleWord).bind fun style _ => ?_
  exact (onlyValueFaults_readWord .unknownColor (fun _ => trivial) colorWord).bind fun color _ =>
    onlyValueFaults_ok _

/-- A list of values is refused as its values are. -/
theorem onlyValueFaults_mapM_childrenOf {α : Type} {read : Node → Except Finding α}
    (hread : ∀ c : Node, c.rule = r → c.AllFit → OnlyValueFaults (read c)) (h : n.AllFit) :
    OnlyValueFaults ((n.childrenOf r).mapM read) := by
  refine onlyValueFaults_mapM fun c hc => ?_
  obtain ⟨hmem, hrule⟩ := List.mem_filter.1 hc
  exact hread c (by simpa using hrule) (h.child hmem)

/-- A list that may be missing is refused as it is where it is there. -/
theorem onlyValueFaults_readList {α : Type} [Textual (List α)]
    (hread : ∀ c : Node, c.AllFit → OnlyValueFaults (Textual.read c : Except Finding (List α)))
    (h : n.AllFit) : OnlyValueFaults (readList r n : Except Finding (List α)) := by
  rw [readList]
  split
  case h_1 list hlist => exact hread list (h.child (Node.childOf?_eq_some hlist).1)
  case h_2 => exact onlyValueFaults_ok []

theorem onlyValueFaults_readTrailing (h : n.AllFit) : OnlyValueFaults (readTrailing n) :=
  onlyValueFaults_readList
    (fun _ => onlyValueFaults_mapM_childrenOf fun _ => onlyValueFaults_read_transform) h

theorem onlyValueFaults_read_shape (hr : n.rule = .shape) (h : n.AllFit) :
    OnlyValueFaults (Textual.read n : Except Finding (Shape Float)) := by
  have hparts := h.fits
  rw [Node.Fits, hr] at hparts
  obtain ⟨⟨kind, keyword, more, hchildren, hkeyword⟩, hcomment, hstyle, htrailing⟩ := hparts
  simp only [Textual.read, hchildren, hkeyword, ShapeKind.ofRule?_rule]
  refine OnlyValueFaults.map (h.child_bind hcomment fun comment _ _ => ?_)
  refine h.child_bind hstyle fun style hrule hfit => ?_
  refine (onlyValueFaults_read_drawStyle hrule hfit).bind fun drawStyle _ => ?_
  refine h.child_bind htrailing fun trailing _ hfit => ?_
  exact (onlyValueFaults_readTrailing hfit).bind fun _ _ => onlyValueFaults_ok _

theorem onlyValueFaults_read_group (hr : n.rule = .group) (h : n.AllFit) :
    OnlyValueFaults (Textual.read n : Except Finding (Group Float)) := by
  have hparts := h.fits
  rw [Node.Fits, hr] at hparts
  rw [read_group]
  refine h.child_bind hparts.1 fun comment _ _ => ?_
  refine OnlyValueFaults.bind (h.child_bind hparts.2 fun trailing _ hfit =>
    onlyValueFaults_readTrailing hfit) fun transforms _ => ?_
  refine (onlyValueFaults_readList (fun _ => onlyValueFaults_mapM_childrenOf fun _ =>
    onlyValueFaults_read_shape) h).bind fun shapes _ => ?_
  split
  · exact onlyValueFaults_error trivial
  · exact onlyValueFaults_ok _

/-- **A node that fits is refused for the faults of values only.** -/
theorem onlyValueFaults_read (p : Part) (hr : n.rule = p.rule) (h : n.AllFit) :
    OnlyValueFaults (Textual.read n : Except Finding p.Value) := by
  cases p with
  | point => exact onlyValueFaults_read_point hr h
  | points => exact onlyValueFaults_mapM_childrenOf (fun _ => onlyValueFaults_read_point) h
  | transform => exact onlyValueFaults_read_transform hr h
  | transforms => exact onlyValueFaults_mapM_childrenOf (fun _ => onlyValueFaults_read_transform) h
  | drawStyle => exact onlyValueFaults_read_drawStyle hr h
  | shape => exact onlyValueFaults_read_shape hr h
  | shapes => exact onlyValueFaults_mapM_childrenOf (fun _ => onlyValueFaults_read_shape) h
  | group => exact onlyValueFaults_read_group hr h
  | document =>
    exact (onlyValueFaults_mapM_childrenOf (fun _ => onlyValueFaults_read_group) h).map

/-- **A text that the grammar accepts has the tree its readers look up**, so it is read, or refused
for a word that stands for no value or for a group without shapes. -/
theorem parse_of_matches (p : Part) (source : Source) (h : p.rule.Matches source.text.toList g []) :
    Node.AllFit ⟨p.rule, 0, g⟩ ∧ ((∃ v, parse p.Value source = .ok v) ∨
      ∃ e, parse p.Value source = .error e ∧ e.fault.OfValue) := by
  have hfit : Node.AllFit ⟨p.rule, 0, g⟩ := fun m hm => by
    obtain ⟨t, left, hm⟩ := exists_matches_of_within hm p.gathers_rule h
    exact fits_of_matches hm
  have hread := onlyValueFaults_read p rfl hfit
  have hwhole : readText p.Value source.text.toList = Textual.read ⟨p.rule, 0, g⟩ := by
    rw [readText]
    exact congrArg (· >>= Textual.read) ((wholeNode_eq_ok_iff p.gathers_rule).2 ⟨g, h, rfl⟩)
  refine ⟨hfit, ?_⟩
  rw [parse, hwhole]
  cases hresult : (Textual.read ⟨p.rule, 0, g⟩ : Except Finding p.Value) with
  | ok v => exact .inl ⟨v, rfl⟩
  | error e => exact .inr ⟨source.blame e, rfl, hread e hresult⟩

theorem parse_of_matches_group :
    let source : Source := ⟨"scene", "group a\nr 45\ns 2 -\n\nunit square\nfilled red\nt 1 0"⟩
    let brk : Forest := .text ['\n'] .nil
    let rotate := formNodes .rotate [] [([' '], ['4', '5'])] []
    let scale := formNodes .scale [] [([' '], ['2']), ([' '], ['-'])] []
    let translate := formNodes .translate [] [([' '], ['1']), ([' '], ['0'])] []
    let square := shapeNodes .unitSquare [] .nil brk
      (twoNodes .styleName .colorName [] "filled".toList ([' '], "red".toList) [])
      (.node .lineEnd brk (.node .transforms (.node .transform translate .nil) .nil))
    let g := groupNodes (.run [' '] ++ .node .name (.run ['a']) .nil)
      (.node .lineEnd brk (.node .transforms
        (.node .transform rotate (.node .lineEnd brk (.node .transform scale .nil))) .nil))
      (.node .lineEnd brk (.node .lineEnd brk (.node .shapes (.node .shape square .nil) .nil)))
    Rule.group.Matches source.text.toList g [] ∧ Node.AllFit ⟨.group, 0, g⟩ ∧
      ((∃ v, parse (Group Float) source = .ok v) ∨
        ∃ e, parse (Group Float) source = .error e ∧ e.fault.OfValue) := by
  intro source brk rotate scale translate square g
  have h : Rule.group.Matches source.text.toList g [] := by
    rw [Rule.Matches]
    decide +kernel
  exact ⟨h, parse_of_matches .group source h⟩

end SceneText
