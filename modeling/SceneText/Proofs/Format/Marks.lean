import SceneText.Proofs.Format.Offenders
import SceneText.Proofs.Format.Stuck

/-!
# Proofs/Format/Marks — the words and blocks of a document

The marks of a match are left by the nodes in it, each at its place (`exists_node_of_mem_marks`,
`Node.Within.exists_marks`).  So a word stands in a document if it is marked, and whether a document
has a group without shapes can be told from the order in which its blocks are marked
(`filled_blocks_iff`).
-/

namespace SceneText

open Pattern

variable {s after : List Char} {f g : Forest} {n c : Node} {m : Mark} {start : Nat}

/-! ## Marks and nodes -/

/-- **A mark is left by a node**, at its place. -/
theorem exists_node_of_mem_marks (hm : m ∈ f.marks after) (start : Nat) :
    ∃ c ∈ f.nodes start, ∃ n : Node, n.Within c ∧ ∃ a z, f.toList ++ after = a ++ (n.text ++ z) ∧
      n.start = start + byteLength a ∧ m ∈ n.rule.mark n.text z := by
  induction f generalizing after start with
  | nil => cases hm
  | text w f ih =>
    obtain ⟨c, hc, n, hn, a, z, htext, hstart, hmark⟩ := ih hm (start + byteLength w)
    refine ⟨c, hc, n, hn, w ++ a, z, ?_, ?_, hmark⟩
    · rw [Forest.toList, List.append_assoc, htext, List.append_assoc]
    · rw [hstart, byteLength_append, Nat.add_assoc]
  | node r i next ih₁ ih₂ =>
    rw [Forest.marks, List.mem_append, List.mem_append] at hm
    rcases hm with (hm | hm) | hm
    · refine ⟨⟨r, start, i⟩, List.mem_cons_self, _, .refl _, [], next.toList ++ after, ?_, rfl, hm⟩
      exact List.append_assoc _ _ _
    · obtain ⟨c, hc, n, hn, a, z, htext, hstart, hmark⟩ := ih₁ hm start
      refine ⟨⟨r, start, i⟩, List.mem_cons_self, n, .child hc hn, a, z, ?_, hstart, hmark⟩
      rw [Forest.toList, List.append_assoc, htext]
    · obtain ⟨c, hc, n, hn, a, z, htext, hstart, hmark⟩ := ih₂ hm (start + byteLength i.toList)
      refine ⟨c, List.mem_cons_of_mem _ hc, n, hn, i.toList ++ a, z, ?_, ?_, hmark⟩
      · rw [Forest.toList, List.append_assoc, htext, List.append_assoc]
      · rw [hstart, byteLength_append, Nat.add_assoc]

/-- **A node leaves its marks**, at its place. -/
theorem Node.Within.exists_marks (hn : n.Within c) (hc : c ∈ f.nodes start) (after : List Char) :
    ∃ a z, f.toList ++ after = a ++ (n.text ++ z) ∧ n.start = start + byteLength a ∧
      ∀ m ∈ n.rule.mark n.text z, m ∈ f.marks after := by
  induction f generalizing c start after with
  | nil => cases hc
  | text w f ih =>
    obtain ⟨a, z, htext, hstart, hmark⟩ := ih hn hc after
    refine ⟨w ++ a, z, ?_, ?_, hmark⟩
    · rw [Forest.toList, List.append_assoc, htext, List.append_assoc]
    · rw [hstart, byteLength_append, Nat.add_assoc]
  | node r i next ih₁ ih₂ =>
    rcases List.mem_cons.1 hc with rfl | hc
    · rcases Node.within_iff.1 hn with rfl | ⟨c, hc, hn⟩
      · exact ⟨[], next.toList ++ after, List.append_assoc _ _ _, rfl, fun m hm =>
          List.mem_append_left _ (List.mem_append_left _ hm)⟩
      · obtain ⟨a, z, htext, hstart, hmark⟩ := ih₁ hn hc (next.toList ++ after)
        refine ⟨a, z, ?_, hstart, fun m hm =>
          List.mem_append_left _ (List.mem_append_right _ (hmark m hm))⟩
        rw [Forest.toList, List.append_assoc, htext]
    · obtain ⟨a, z, htext, hstart, hmark⟩ := ih₂ hn hc after
      refine ⟨i.toList ++ a, z, ?_, ?_, fun m hm => List.mem_append_right _ (hmark m hm)⟩
      · rw [Forest.toList, List.append_assoc, htext, List.append_assoc]
      · rw [hstart, byteLength_append, Nat.add_assoc]

/-- A mark in a document is left by a node in it. -/
theorem exists_within_of_mem_marks (h : Rule.document.Matches s g []) (hm : m ∈ g.marks []) :
    ∃ n : Node, n.Within ⟨.document, 0, g⟩ ∧ ∃ a z, s = a ++ (n.text ++ z) ∧
      n.start = byteLength a ∧ m ∈ n.rule.mark n.text z := by
  obtain ⟨c, hc, n, hn, a, z, htext, hstart, hmark⟩ := exists_node_of_mem_marks hm 0
  have hg : g.toList = s := by simpa using h.toList_append
  rw [List.append_nil, hg] at htext
  exact ⟨n, .child hc hn, a, z, htext, hstart.trans (Nat.zero_add _), hmark⟩

/-- A node in a document leaves its marks. -/
theorem exists_marks_of_within (h : Rule.document.Matches s g []) (hn : n.Within ⟨.document, 0, g⟩)
    (hr : n.rule ≠ .document) : ∃ a z, s = a ++ (n.text ++ z) ∧ n.start = byteLength a ∧
      ∀ m ∈ n.rule.mark n.text z, m ∈ g.marks [] := by
  rcases Node.within_iff.1 hn with rfl | ⟨c, hc, hn⟩
  · exact absurd rfl hr
  · obtain ⟨a, z, htext, hstart, hmarks⟩ := hn.exists_marks hc []
    have hg : g.toList = s := by simpa using h.toList_append
    rw [List.append_nil, hg] at htext
    exact ⟨a, z, htext, hstart.trans (Nat.zero_add _), hmarks⟩

theorem Rule.mark_of_isWord {r : Rule} (hr : r.isWord) (inner after : List Char) :
    r.mark inner after = [⟨r, inner, after⟩] := if_pos hr

/-! ## What marks say, wherever they stand -/

/-- The rule and the word of a mark. -/
def Mark.label (m : Mark) : Rule × List Char := (m.rule, m.word)

/-- **What follows a match does not change what it marks**, only where that stands. -/
theorem Forest.map_label_marks (f : Forest) (after after' : List Char) :
    (f.marks after).map Mark.label = (f.marks after').map Mark.label := by
  induction f generalizing after after' with
  | nil => rfl
  | text w f ih => exact ih after after'
  | node r i next ih₁ ih₂ =>
    have hself (z z' : List Char) : (r.mark i.toList z).map Mark.label =
        (r.mark i.toList z').map Mark.label := by
      unfold Rule.mark
      split
      · rfl
      · split <;> rfl
    rw [marks, marks, List.map_append, List.map_append, List.map_append, List.map_append,
      hself _ (next.toList ++ after'), ih₁ _ (next.toList ++ after'), ih₂ after after']

/-! ## The order of blocks -/

/-- The rules of the blocks among some marks. -/
def blocks (ms : List Mark) : List Rule := (ms.map Mark.rule).filter Rule.isBlock

theorem blocks_append (ms ms' : List Mark) : blocks (ms ++ ms') = blocks ms ++ blocks ms' := by
  rw [blocks, List.map_append, List.filter_append, blocks, blocks]

theorem blocks_eq_of_label {ms ms' : List Mark} (h : ms.map Mark.label = ms'.map Mark.label) :
    blocks ms = blocks ms' := by
  have hrules : ms.map Mark.rule = ms'.map Mark.rule := by
    have hfst := congrArg (List.map Prod.fst) h
    rw [List.map_map, List.map_map] at hfst
    exact hfst
  rw [blocks, hrules, blocks]

theorem Forest.blocks_marks (f : Forest) (after after' : List Char) :
    blocks (f.marks after) = blocks (f.marks after') :=
  blocks_eq_of_label (f.map_label_marks after after')

theorem blocks_mark (r : Rule) (inner after : List Char) :
    blocks (r.mark inner after) = if r.isBlock then [r] else [] := by
  cases r <;> rfl

/-- **Every group has a shape**: the block behind its header is one. -/
def Filled (rs : List Rule) : Prop :=
  List.IsChain (fun r r' : Rule => r = .group → r' = .shape) (rs ++ [.group])

/-- Shapes do not keep what follows from being filled. -/
theorem filled_append {rs rs' : List Rule} (hrs : ∀ r ∈ rs, r = .shape) :
    Filled (rs ++ rs') ↔ Filled rs' := by
  induction rs with
  | nil => rfl
  | cons r rs ih =>
    obtain ⟨rfl, hmore⟩ := List.forall_mem_cons.1 hrs
    rw [← ih hmore, Filled, List.cons_append, List.cons_append, List.isChain_cons, Filled]
    simp

/-- Behind the header of a group the next block must be a shape. -/
theorem filled_group_cons {rs : List Rule} :
    Filled (.group :: rs) ↔ (rs ++ [Rule.group]).head? = some .shape ∧ Filled rs := by
  have hne : rs ++ [Rule.group] ≠ [] := by simp
  obtain ⟨r, rs', hrs⟩ := List.exists_cons_of_ne_nil hne
  rw [Filled, List.cons_append, List.isChain_cons, Filled, hrs]
  simp

/-- A node among those of a document: a group of shapes, or one without blocks. -/
def Node.InDocument (n : Node) : Prop :=
  n.rule = .group ∧ (∀ r ∈ blocks (n.inner.marks []), r = .shape) ∨
    n.rule.isBlock = false ∧ blocks (n.inner.marks []) = []

/-- Where no group lacks shapes, the order of blocks shows it. -/
theorem filled_blocks_marks_iff (f : Forest) (start : Nat)
    (h : ∀ n ∈ f.nodes start, n.InDocument) :
    (blocks (f.marks []) ++ [Rule.group]).head? = some .group ∧
      (Filled (blocks (f.marks [])) ↔
        ∀ n ∈ f.nodes start, n.rule = .group → blocks (n.inner.marks []) ≠ []) := by
  induction f generalizing start with
  | nil => exact ⟨rfl, iff_of_true (List.isChain_singleton _) (by simp [Forest.nodes])⟩
  | text w f ih => exact ih _ h
  | node r i next _ ih =>
    obtain ⟨hfirst, hnext⟩ := List.forall_mem_cons.1 h
    obtain ⟨hhead, hfilled⟩ := ih _ hnext
    have hblocks : blocks ((Forest.node r i next).marks []) =
        (if r.isBlock then [r] else []) ++ (blocks (i.marks []) ++ blocks (next.marks [])) := by
      rw [Forest.marks, blocks_append, blocks_append, blocks_mark, i.blocks_marks _ [],
        List.append_assoc]
    rw [hblocks, Forest.nodes, List.forall_mem_cons, ← hfilled]
    rcases hfirst with ⟨hr, hshapes⟩ | ⟨hr, hnone⟩
    · obtain rfl : r = .group := hr
      refine ⟨rfl, ?_⟩
      change Filled (.group :: (blocks (i.marks []) ++ blocks (next.marks []))) ↔ _
      rw [filled_group_cons, filled_append hshapes, List.append_assoc]
      cases hi : blocks (i.marks []) with
      | nil => simp [hhead]
      | cons r rs =>
        obtain rfl : r = .shape := hshapes r (by simp [hi])
        simp
    · have hr' : r ≠ .group := by
        rintro rfl
        cases hr
      have hnil : blocks (i.marks []) = [] := hnone
      rw [show r.isBlock = false from hr, hnil]
      simpa [hr'] using hhead

/-! ## Groups without shapes -/

theorem mem_blocks_iff {ms : List Mark} {r : Rule} :
    r ∈ blocks ms ↔ r.isBlock ∧ ∃ m ∈ ms, m.rule = r := by
  simp [blocks, and_comm]

/-- The blocks inside a group are shapes. -/
theorem Node.Matched.eq_shape_of_mem_blocks (hn : n.Matched) (hr : n.rule = .group) {r : Rule}
    (h : r ∈ blocks (n.inner.marks [])) : r = .shape := by
  obtain ⟨q, start, g⟩ := n
  obtain rfl : q = .group := hr
  obtain ⟨-, s, rest, hmatch⟩ := hn
  obtain ⟨hblock, m, hm, rfl⟩ := mem_blocks_iff.1 h
  have hmem := rule_mem_of_mem_marks ((Rule.matches_iff rfl).1 hmatch) hm
  refine (?_ : ∀ r ∈ Pattern.rules _, r.isBlock → r = .shape) _ hmem hblock
  decide

/-- **A group has shapes if blocks are marked inside it.** -/
theorem Node.Matched.blocks_ne_nil_iff (hn : n.Matched) (hr : n.rule = .group) :
    blocks (n.inner.marks []) ≠ [] ↔ ∃ m : Node, m.Within n ∧ m.rule = .shape := by
  constructor
  · intro hne
    obtain ⟨r, hmem⟩ := List.exists_mem_of_ne_nil _ hne
    obtain rfl := hn.eq_shape_of_mem_blocks hr hmem
    obtain ⟨-, m, hm, hshape⟩ := mem_blocks_iff.1 hmem
    obtain ⟨c, hc, m', hm', _, _, -, -, hmark⟩ := exists_node_of_mem_marks hm n.start
    exact ⟨m', .child hc hm', (Rule.eq_of_mem_mark hmark).symm.trans hshape⟩
  · rintro ⟨m, hm, hshape⟩
    rcases Node.within_iff.1 hm with rfl | ⟨c, hc, hm⟩
    · rw [hr] at hshape
      cases hshape
    · obtain ⟨a, z, -, -, hmarks⟩ := hm.exists_marks hc []
      rw [hshape] at hmarks
      have hmem : Rule.shape ∈ blocks (n.inner.marks []) :=
        mem_blocks_iff.2 ⟨rfl, _, hmarks _ (List.mem_singleton.2 rfl), rfl⟩
      exact List.ne_nil_of_mem hmem

/-- Rules whose bodies have no rules leave no blocks. -/
theorem Node.Matched.blocks_eq_nil {body : Pattern} (hn : n.Matched)
    (hbody : n.rule.pattern = .rule n.rule body) (hrules : body.rules = []) :
    blocks (n.inner.marks []) = [] := by
  obtain ⟨-, s, rest, hmatch⟩ := hn
  refine List.eq_nil_iff_forall_not_mem.2 fun r hr => ?_
  obtain ⟨-, m, hm, -⟩ := mem_blocks_iff.1 hr
  have hmem := rule_mem_of_mem_marks ((Rule.matches_iff hbody).1 hmatch) hm
  rw [hrules] at hmem
  exact List.not_mem_nil hmem

/-- The nodes directly inside a document are groups, and line ends between them. -/
theorem Node.Matched.inDocument (hn : n.Matched) (hr : n.rule = .document) (hc : c ∈ n.children) :
    c.InDocument := by
  obtain ⟨hmatched, hpart⟩ := hn.child hc
  have hparts : ∀ r ∈ Rule.parts .document, r = .group ∨ r = .lineEnd ∨ r = .endOfText := by decide
  rcases hparts _ (hr ▸ hpart) with hgroup | hend | hend
  · exact .inl ⟨hgroup, fun r => hmatched.eq_shape_of_mem_blocks hgroup⟩
  · exact .inr ⟨by rw [hend]; rfl, hmatched.blocks_eq_nil (by rw [hend]; rfl) rfl⟩
  · exact .inr ⟨by rw [hend]; rfl, hmatched.blocks_eq_nil (by rw [hend]; rfl) rfl⟩

/-- Groups stand directly inside a document. -/
theorem Node.Matched.mem_children_of_group (hn : n.Matched) (hr : n.rule = .document)
    (hc : c.Within n) (hgroup : c.rule = .group) : c ∈ n.children := by
  rcases Node.within_iff.1 hc with rfl | ⟨d, hd, hc⟩
  · rw [hr] at hgroup
    cases hgroup
  obtain ⟨hmatched, hpart⟩ := hn.child hd
  have hbelow {d : Node} (hd : d.Matched) (hrule : d.rule ∈ belowGroups) (hc : c.Within d) :
      False := by
    have hmem := hd.rule_mem hc (by decide) hrule
    rw [hgroup] at hmem
    exact absurd hmem (by decide)
  rcases Node.within_iff.1 hc with rfl | ⟨e, he, hc⟩
  · exact hd
  · obtain ⟨hmatched', hpart'⟩ := hmatched.child he
    have hparts : ∀ r ∈ Rule.parts .document, ∀ r' ∈ r.parts, r' ∈ belowGroups := by decide
    exact (hbelow hmatched' (hparts _ (hr ▸ hpart) _ hpart') hc).elim

/-- **Every group of a document has a shape** if and only if the order of blocks says so. -/
theorem filled_blocks_iff (h : Rule.document.Matches s g []) : Filled (blocks (g.marks [])) ↔
    ∀ n : Node, n.Within ⟨.document, 0, g⟩ → n.rule = .group →
      ∃ m : Node, m.Within n ∧ m.rule = .shape := by
  have hroot : (⟨.document, 0, g⟩ : Node).Matched := ⟨⟨_, rfl⟩, _, _, h⟩
  rw [(filled_blocks_marks_iff g 0 fun n hn => hroot.inDocument rfl hn).2]
  constructor
  · intro hall n hn hr
    exact ((hroot.within hn).blocks_ne_nil_iff hr).1
      (hall n (hroot.mem_children_of_group rfl hn hr) hr)
  · intro hall n hn hr
    exact ((hroot.child hn).1.blocks_ne_nil_iff hr).2 (hall n (.child hn (.refl n)) hr)

end SceneText
