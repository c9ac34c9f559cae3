import SceneText.Proofs.Format.Items
import SceneText.Proofs.Format.Nested
import SceneText.Proofs.Text.Seams

/-!
# Proofs/Format/Trailing — how far the transforms under a header go

A header's transforms are a run of line ends, each with a transform behind it (`TransformRun`).  The
rule looks ahead before it takes the first line end, takes that one apart from the rest, and gives
back the last line end that no transform follows.  All the same it takes the longest run there is,
and the transforms of its tree are those of the run (`trailingTransforms_boundary`).
-/

namespace SceneText

open Pattern

variable {s t rest rest' : List Char} {f g : Forest} {m : Node} {ns ns' : List Node} {start : Nat}

/-! ## All nodes of a match -/

/-- The nodes of a match at any depth, each before those inside it. -/
def Forest.allNodes : Forest → Nat → List Node
  | .nil, _ => []
  | .text stretch next, start => next.allNodes (start + byteLength stretch)
  | .node r inner next, start =>
    ⟨r, start, inner⟩ :: (inner.allNodes start ++ next.allNodes (start + byteLength inner.toList))

/-- They are the outermost nodes and what stands inside these. -/
theorem Forest.mem_allNodes_iff : m ∈ f.allNodes start ↔ ∃ c ∈ f.nodes start, m.Within c := by
  induction f generalizing start with
  | nil => simp [allNodes, nodes]
  | text stretch next ih => exact ih
  | node r inner next ihinner ihnext =>
    rw [allNodes, nodes, List.mem_cons, List.mem_append, ihinner, ihnext]
    simp only [List.mem_cons, exists_eq_or_imp]
    rw [Node.within_iff, or_assoc]
    rfl

/-- No transform stands inside a transform. -/
theorem filter_allNodes_of_matches_transform (h : Rule.transform.Matches s g rest) (start : Nat) :
    (g.allNodes start).filter (·.rule = .transform) = [] := by
  refine List.filter_eq_nil_iff.2 fun m hm => ?_
  obtain ⟨c, hc, hm⟩ := Forest.mem_allNodes_iff.1 hm
  have hmatched : Node.Matched ⟨.transform, start, g⟩ := ⟨⟨_, rfl⟩, s, rest, h⟩
  let rules : List Rule := [.rotate, .scale, .translate, .number]
  have hparts : ∀ r ∈ Rule.transform.parts, r ∈ rules := by decide +kernel
  have hclosed : ∀ r ∈ rules, ∀ r' ∈ r.parts, r' ∈ rules := by decide +kernel
  obtain ⟨hchild, hrule⟩ := hmatched.child hc
  have hmem := hchild.rule_mem hm hclosed (hparts _ hrule)
  intro htransform
  rw [of_decide_eq_true htransform] at hmem
  exact absurd hmem (by decide)

/-! ## Runs -/

/-- A line end stands at the front of the text, and a transform behind it. -/
def TransformFollows (s : List Char) : Prop :=
  ∃ t g rest, dropLineEnd? s = some t ∧ Rule.transform.Matches t g rest

/-- **Transforms at the front of a text, each behind a line end**: their nodes, where the text begins
at an offset, and what is left of it. -/
inductive TransformRun : Nat → List Char → List Node → List Char → Prop
  | nil {start : Nat} {s : List Char} : TransformRun start s [] s
  | cons {start : Nat} {s brk t mid rest : List Char} {g : Forest} {ns : List Node} :
    s = brk ++ t → dropLineEnd? s = some t → Rule.transform.Matches t g mid →
      TransformRun (start + byteLength brk + byteLength g.toList) mid ns rest →
        TransformRun start s (⟨.transform, start + byteLength brk, g⟩ :: ns) rest

theorem parse_transformItem_iff : transformItem.parse s = some (f, rest) ↔
    ∃ brk t g, s = brk ++ t ∧ dropLineEnd? s = some t ∧ Rule.transform.Matches t g rest ∧
      f = .node .lineEnd (.text brk .nil) (.node .transform g .nil) := by
  constructor
  · intro h
    obtain ⟨_, t, _, hend, htransform, rfl⟩ := parse_append_iff.1 h
    obtain ⟨brk, hdrop, hs, rfl⟩ := parse_lineEnd_iff.1 hend
    obtain ⟨g, hg, rfl⟩ := (Rule.parse_pattern_iff (r := .transform) rfl).1 htransform
    exact ⟨brk, t, g, hs, hdrop, hg, rfl⟩
  · rintro ⟨brk, t, g, hs, hdrop, hg, rfl⟩
    exact parse_append_iff.2 ⟨_, t, _, parse_lineEnd_iff.2 ⟨brk, hdrop, hs, rfl⟩,
      (Rule.parse_pattern_iff (r := .transform) rfl).2 ⟨g, hg, rfl⟩, rfl⟩

theorem transformFollows_iff : TransformFollows s ↔ transformItem.parse s ≠ none := by
  constructor
  · rintro ⟨t, g, rest, hdrop, hg⟩
    obtain ⟨brk, hs, -⟩ := dropLineEnd?_eq_some_iff.1 hdrop
    rw [parse_transformItem_iff.2 ⟨brk, t, g, hs, hdrop, hg, rfl⟩]
    exact Option.some_ne_none _
  · intro h
    obtain ⟨⟨f, rest⟩, hparse⟩ := Option.ne_none_iff_exists'.1 h
    obtain ⟨_, t, g, -, hdrop, hg, -⟩ := parse_transformItem_iff.1 hparse
    exact ⟨t, g, rest, hdrop, hg⟩

theorem TransformRun.suffix (h : TransformRun start s ns rest) : rest <:+ s := by
  induction h with
  | nil => exact List.suffix_rfl
  | cons hs _ hg _ ih =>
    rw [hs, ← hg.toList_append]
    exact ih.trans ((List.suffix_append _ _).trans (List.suffix_append _ _))

/-- **A run that no transform follows is the longest**, and all others are its beginnings. -/
theorem TransformRun.longest (h : TransformRun start s ns rest) (hend : ¬ TransformFollows rest)
    (h' : TransformRun start s ns' rest') : ns' <+: ns ∧ rest <:+ rest' := by
  induction h' generalizing ns with
  | nil => exact ⟨List.nil_prefix, h.suffix⟩
  | cons hs hdrop hg _ ih =>
    cases h with
    | nil => exact absurd ⟨_, _, _, hdrop, hg⟩ hend
    | cons hs' hdrop' hg' hrun =>
      -- neither the line end nor the transform behind it can be taken in another way
      obtain rfl := Option.some.inj (hdrop.symm.trans hdrop')
      obtain rfl := List.append_cancel_right (hs.symm.trans hs')
      obtain ⟨rfl, rfl⟩ := hg.unique hg'
      obtain ⟨hns, hrest⟩ := ih hrun
      exact ⟨(List.prefix_cons_inj _).2 hns, hrest⟩

/-- A run that no transform follows is empty only where none follows its place. -/
theorem TransformRun.eq_nil_iff (h : TransformRun start s ns rest)
    (hend : ¬ TransformFollows rest) : ns = [] ↔ ¬ TransformFollows s := by
  cases h with
  | nil => exact iff_of_true rfl hend
  | cons _ hdrop hg _ =>
    exact iff_of_false (List.cons_ne_nil _ _) (not_not_intro ⟨_, _, _, hdrop, hg⟩)

/-- A text that ends on a line that holds more than blanks does not end with a line break. -/
theorem Carries.not_endsLine (h : Carries s) : ¬ EndsLine s := by
  obtain ⟨w, c, z, rfl, hc, hz⟩ := h
  have hline : ∀ d ∈ c :: z, isLineBreak d = false :=
    List.forall_mem_cons.2 ⟨(Bool.or_eq_false_iff.1 hc).2, hz⟩
  obtain ⟨d, hd⟩ : ∃ d, (c :: z).getLast? = some d :=
    ⟨_, List.getLast?_eq_some_getLast (List.cons_ne_nil c z)⟩
  have hlast : (w ++ c :: z).getLast? = some d := by
    rw [List.getLast?_append_of_ne_nil _ (List.cons_ne_nil c z), hd]
  intro hends
  exact absurd (hends d hlast) (by simp [hline d (List.mem_of_getLast? hd)])

theorem Carries.ne_nil (h : Carries s) : s ≠ [] := by
  obtain ⟨w, c, z, rfl, -⟩ := h
  simp

/-- **A run ends where its last transform does**, behind the blanks of that line. -/
theorem TransformRun.exists_taken (h : TransformRun start s ns rest) :
    ∃ w, s = w ++ rest ∧ (w = [] ↔ ns = []) ∧ ∀ n ∈ ns.getLast?,
      n.stop = start + byteLength w ∧ Carries w ∧ Stops isBlank rest := by
  induction h with
  | nil => exact ⟨[], rfl, by simp, by simp⟩
  | @cons start s brk t mid rest g ns hs _ hg hrun ih =>
    obtain ⟨w, hw, hnil, hlast⟩ := ih
    obtain ⟨hcarries, hblank⟩ := closes_transform hg
    replace hcarries : Carries g.toList := by simpa [Forest.toList] using hcarries
    refine ⟨brk ++ (g.toList ++ w), ?_, by simp [hcarries.ne_nil], fun n hn => ?_⟩
    · rw [hs, ← hg.toList_append, hw]
      simp
    · cases ns with
      | nil =>
        cases hrun
        cases hn
        obtain rfl := hnil.2 rfl
        rw [List.append_nil]
        exact ⟨by simp [Node.stop, Node.text, Nat.add_assoc], hcarries.append brk, hblank⟩
      | cons n' ns =>
        obtain ⟨hstop, hw, hblank⟩ := hlast n hn
        exact ⟨by simp [hstop, Nat.add_assoc], (hw.append _).append _, hblank⟩

/-! ## Runs of the rule -/

/-- **The turns of a repetition are a run**, which no transform follows. -/
theorem transformRun_of_repeats (h : Repeats transformItem s f rest) (start : Nat) :
    TransformRun start s ((f.allNodes start).filter (·.rule = .transform)) rest ∧
      ¬ TransformFollows rest ∧
        (f.nodes start).filter (·.rule = .transform) =
          (f.allNodes start).filter (·.rule = .transform) := by
  induction h generalizing start with
  | stop hnone => exact ⟨.nil, fun hfollows => transformFollows_iff.1 hfollows hnone, rfl⟩
  | @step s mid rest f more hstep _ ih =>
    obtain ⟨brk, t, g, hs, hdrop, hg, rfl⟩ := parse_transformItem_iff.1 hstep
    obtain ⟨hrun, hend, hnodes⟩ := ih (start + byteLength brk + byteLength g.toList)
    have hinner := filter_allNodes_of_matches_transform hg (start + byteLength brk)
    refine ⟨?_, hend, ?_⟩
    · simpa [Forest.allNodes, Forest.toList, hinner] using .cons hs hdrop hg hrun
    · simpa [Forest.allNodes, Forest.nodes, Forest.toList, hinner] using hnodes

/-- **Looking ahead and gathering the list leave the turns as they are.** -/
theorem exists_repeats_of_matches_trailing (h : Rule.trailingTransforms.Matches s g rest)
    (start : Nat) : ∃ f, Repeats transformItem s f rest ∧
      (g.allNodes start).filter (·.rule = .transform) =
        (f.allNodes start).filter (·.rule = .transform) ∧
      readTrailing ⟨.trailingTransforms, start, g⟩ =
        ((f.nodes start).filter (·.rule = .transform)).mapM Textual.read := by
  rcases matches_trailing_iff.1 h with ⟨e, t, list, hend, hlist, rfl⟩ | ⟨hnone, rfl, rfl⟩
  · -- the first line end stands before the list, and the first transform at its front
    obtain ⟨brk, -, -, rfl⟩ := parse_lineEnd_iff.1 hend
    obtain ⟨_, mid, more, hfirst, hmore, rfl⟩ := parse_append_iff.1 ((Rule.matches_iff rfl).1 hlist)
    obtain ⟨first, -, rfl⟩ := (Rule.parse_pattern_iff (r := .transform) rfl).1 hfirst
    refine ⟨_, .step (parse_append_iff.2 ⟨_, t, _, hend, hfirst, rfl⟩)
      ((parse_many_iff rfl).1 hmore), ?_, rfl⟩
    simp [Forest.allNodes, Forest.toList]
  · refine ⟨.nil, .stop (Option.eq_none_iff_forall_ne_some.2 ?_), rfl, rfl⟩
    rintro ⟨f, rest⟩ hparse
    obtain ⟨_, t, _, hend, htransform, -⟩ := parse_append_iff.1 hparse
    exact absurd (htransform.symm.trans (hnone _ t hend)) (Option.some_ne_none _)

/-- **The transforms under a header go as far as they can.**  At every place the rule for them
matches.  It takes nothing exactly where no line end with a transform behind it follows; else it
takes a run of those, of which all other runs are beginnings.  That ends where its last transform
does, blanks included, so never behind a line end, and no further transform follows it.  The
transforms of its tree, at any depth, are those of the run, and these are what is read. -/
theorem trailingTransforms_boundary (start : Nat) (s : List Char) :
    ∃ g rest ns, Rule.trailingTransforms.Matches s g rest ∧ g.toList ++ rest = s ∧
      (g.toList = [] ↔ ¬ TransformFollows s) ∧
      TransformRun start s ns rest ∧ ¬ TransformFollows rest ∧
      (∀ ns' rest', TransformRun start s ns' rest' → ns' <+: ns ∧ rest <:+ rest') ∧
      (TransformFollows s → ¬ EndsLine g.toList ∧ Stops isBlank rest ∧
        ∃ n, ns.getLast? = some n ∧ n.stop = start + byteLength g.toList) ∧
      (g.allNodes start).filter (·.rule = .transform) = ns ∧
      readTrailing ⟨.trailingTransforms, start, g⟩ = ns.mapM Textual.read := by
  obtain ⟨⟨_, rest⟩, hparse⟩ := Option.isSome_iff_exists.1 (total_trailingTransforms s)
  obtain ⟨g, hg, rfl⟩ := (Rule.parse_pattern_iff (r := .trailingTransforms) rfl).1 hparse
  obtain ⟨f, hf, hnodes, hread⟩ := exists_repeats_of_matches_trailing hg start
  obtain ⟨hrun, hend, hchildren⟩ := transformRun_of_repeats hf start
  rw [hchildren, ← hnodes] at hread
  rw [← hnodes] at hrun
  obtain ⟨w, hw, hnil, hlast⟩ := hrun.exists_taken
  obtain rfl : g.toList = w := List.append_cancel_right (hg.toList_append.trans hw)
  refine ⟨g, rest, _, hg, hw.symm, hnil.trans (hrun.eq_nil_iff hend), hrun, hend,
    fun ns' rest' => hrun.longest hend, fun hfollows => ?_, rfl, hread⟩
  have hne := mt (hrun.eq_nil_iff hend).1 (not_not_intro hfollows)
  have hn := List.getLast?_eq_some_getLast hne
  obtain ⟨hstop, hcarries, hblank⟩ := hlast _ hn
  exact ⟨hcarries.not_endsLine, hblank, _, hn, hstop⟩

end SceneText
