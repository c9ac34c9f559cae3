import SceneText.Proofs.Format.Nested
import SceneText.Proofs.Grammar.LineEnds

/-!
# Proofs/Format/LineFeeds — line ends do not matter

A text and the same text with line feeds are matched alike, so the nodes of the one correspond to
those of the other (`corresponds_lineFeeds`).  They have the same value, or the same fault at places
that correspond (`parse_withLineFeeds`).
-/

namespace SceneText

open Pattern

variable {source s before after : List Char} {g : Forest} {n n' : Node} {far : Furthest}

/-! ## Findings and nodes that correspond -/

/-- **Findings in a text and in the text with line feeds correspond**: they have the same fault, at
places that correspond. -/
def SameFinding (source : List Char) (e e' : Finding) : Prop :=
  e'.fault = e.fault ∧ SamePlace source e.span.offset e'.span.offset

/-- A node of a match in a text, and the one that corresponds in the text with line feeds. -/
structure SameNode (source : List Char) (n n' : Node) : Prop where
  matched : n.Matched
  rule : n'.rule = n.rule
  inner : n'.inner = n.inner.lineFeeds
  place : ∃ before after, source = before ++ (n.text ++ after) ∧ Seam before (n.text ++ after) ∧
    n.inner.Whole after ∧ n.start = byteLength before ∧ n'.start = byteLength (lineFeeds before)

/-- Words and names hold no line break. -/
theorem Node.Matched.isLineBreak_of_mem_text (h : n.Matched) (hr : n.rule ∈ wordRules) :
    ∀ c ∈ n.text, isLineBreak c = false := by
  obtain ⟨r, start, g⟩ := n
  obtain ⟨-, s, rest, hmatch⟩ := h
  have htoken {is : Char → Bool} (htoken : r.pattern = token r is) (his : InWords is) :
      ∀ c ∈ g.toList, isLineBreak c = false := by
    rw [Rule.Matches, htoken] at hmatch
    obtain ⟨w, -, hw, -, hg⟩ := parse_token_iff.1 hmatch
    obtain rfl : g = .run w := by simpa using hg
    rw [Forest.toList_run]
    exact fun c hc => (his c (hw.2 c hc)).2
  have hcases : r = .number ∨ r = .name ∨ r = .styleName ∨ r = .colorName := by
    simpa [wordRules] using hr
  rcases hcases with rfl | rfl | rfl | rfl
  · exact htoken rfl inWords_isNumberChar
  · obtain ⟨-, hg⟩ := matches_name_iff.1 hmatch
    obtain rfl : g = .run (firstLine s) := hg
    rw [Node.text, Forest.toList_run]
    exact fun c => isLineBreak_of_mem_firstLine
  · exact htoken rfl inWords_isAlpha
  · exact htoken rfl inWords_isAlpha

theorem SameNode.text_eq (h : SameNode source n n') : n'.text = lineFeeds n.text := by
  obtain ⟨before, after, -, -, hwhole, -⟩ := h.place
  rw [Node.text, h.inner, hwhole.toList_lineFeeds, Node.text]

/-- **The nodes of a match correspond to those of the match in the text with line feeds.** -/
theorem forall₂_nodes_lineFeeds (hsource : source = before ++ (g.toList ++ after))
    (hseam : Seam before (g.toList ++ after)) (hwhole : g.Whole after)
    (hmatched : ∀ n ∈ g.nodes (byteLength before), n.Matched) :
    List.Forall₂ (SameNode source) (g.nodes (byteLength before))
      (g.lineFeeds.nodes (byteLength (lineFeeds before))) := by
  induction g generalizing before with
  | nil => exact .nil
  | text w g ih =>
    rw [Forest.toList, List.append_assoc] at hseam hsource
    have hbefore : byteLength before + byteLength w = byteLength (before ++ w) := by simp
    have hbefore' : byteLength (lineFeeds before) + byteLength (lineFeeds w) =
        byteLength (lineFeeds (before ++ w)) := by
      rw [lineFeeds_append hseam.left, byteLength_append]
    rw [Forest.nodes, hbefore] at hmatched ⊢
    rw [Forest.lineFeeds, Forest.nodes, hbefore']
    exact ih (by rw [hsource, List.append_assoc]) (hwhole.1.append_left hseam) hwhole.2 hmatched
  | node r i g _ ih =>
    rw [Forest.toList, List.append_assoc] at hseam hsource
    have hbefore : byteLength before + byteLength i.toList = byteLength (before ++ i.toList) := by
      simp
    have hbefore' : byteLength (lineFeeds before) + byteLength i.lineFeeds.toList =
        byteLength (lineFeeds (before ++ i.toList)) := by
      rw [hwhole.1.toList_lineFeeds, lineFeeds_append hseam.left, byteLength_append]
    rw [Forest.nodes, hbefore] at hmatched ⊢
    rw [Forest.lineFeeds, Forest.nodes, hbefore']
    obtain ⟨hfirst, hmore⟩ := List.forall_mem_cons.1 hmatched
    refine .cons ⟨hfirst, rfl, rfl, before, _, hsource, hseam, hwhole.1, rfl, rfl⟩ ?_
    exact ih (by rw [hsource, List.append_assoc]) (hwhole.1.seam.append_left hseam) hwhole.2 hmore

/-- **Nodes of the two texts correspond for all readers.** -/
theorem corresponds_lineFeeds (source : List Char) :
    Corresponds (SameNode source) (SameFinding source) where
  rule h := h.rule
  children h := by
    obtain ⟨before, after, hsource, hseam, hwhole, hstart, hstart'⟩ := h.place
    rw [Node.children, Node.children, h.inner, hstart, hstart']
    refine forall₂_nodes_lineFeeds hsource hseam hwhole fun c hc => ?_
    exact (h.matched.child (by rwa [Node.children, hstart])).1
  text h hr := by
    rw [h.text_eq, lineFeeds_of_forall (h.matched.isLineBreak_of_mem_text hr)]
  start fault length h := by
    obtain ⟨before, after, hsource, hseam, -, hstart, hstart'⟩ := h.place
    exact ⟨rfl, before, _, hsource, hseam, hstart, hstart'⟩
  keyword {n _} name h := by
    obtain ⟨before, after, hsource, hseam, hwhole, hstart, hstart'⟩ := h.place
    refine ⟨rfl, ?_⟩
    simp only [Finding.emptyGroup, h.text_eq, hstart, hstart']
    rcases offsetOf?_lineFeeds isLineBreak_group (by decide) n.text with
      ⟨hnone, hnone'⟩ | ⟨k, k', hk, hk', hplace⟩
    · rw [hnone, hnone']
      exact ⟨before, _, hsource, hseam, rfl, rfl⟩
    · rw [hk, hk', hsource]
      exact hplace.within hseam hwhole.seam

/-! ## Failed matches -/

/-- **A failed match is judged alike** in both texts. -/
theorem sameFinding_ofFurthest (hfar : Cut s far.rest) :
    SameFinding s (.ofFurthest s far) (.ofFurthest (lineFeeds s) far.lineFeeds) := by
  have hover : (lineFeeds far.rest).head?.all isLineBreak = far.rest.head?.all isLineBreak :=
    head?_all_lineFeeds (fun c hc => hc) _
  have hword : (lineFeeds far.rest).takeWhile (fun c => !whiteSpace.has c) =
      far.rest.takeWhile fun c => !whiteSpace.has c := by
    refine takeWhile_lineFeeds (fun c hc => ?_) _
    rcases (by simpa [isLineBreak] using hc : c = '\n' ∨ c = '\r') with rfl | rfl <;> decide
  obtain ⟨before, hsource, hseam⟩ := hfar
  have hoffset : far.offset s = byteLength before := by
    rw [Furthest.offset, hsource, byteLength_append, Nat.add_sub_cancel]
  have hoffset' : far.lineFeeds.offset (lineFeeds s) = byteLength (lineFeeds before) := by
    rw [Furthest.offset, hsource, lineFeeds_append hseam, byteLength_append]
    exact Nat.add_sub_cancel _ _
  have hexpected : far.lineFeeds.expected = far.expected := rfl
  have hrest : far.lineFeeds.rest = lineFeeds far.rest := rfl
  simp only [Finding.ofFurthest, hoffset, hoffset', hexpected, hrest, hover, hword]
  split_ifs
  · exact ⟨rfl, before, far.rest, hsource, hseam, rfl, rfl⟩
  · exact ⟨rfl, before, far.rest, hsource, hseam, rfl, rfl⟩
  · exact ⟨rfl, before, far.rest, hsource, hseam, rfl, rfl⟩

/-! ## Whole texts -/

/-- **The nodes that span the two texts correspond**, or the texts are refused alike. -/
theorem wholeNode_lineFeeds {r : Rule} (hr : r.Gathers) (s : List Char) :
    (∃ n n', wholeNode r s = .ok n ∧ wholeNode r (lineFeeds s) = .ok n' ∧ SameNode s n n') ∨
      ∃ e e', wholeNode r s = .error e ∧ wholeNode r (lineFeeds s) = .error e' ∧
        SameFinding s e e' := by
  have hparse := r.fair.parse_lineFeeds s
  rcases hr.matches_or s with h | ⟨g, rest, h⟩
  · rw [h, Option.map_none] at hparse
    have hstart : Cut s (Furthest.start s).rest := Cut.refl s
    obtain ⟨hcut, hsearch⟩ := r.fair.searchesAlike (Cut.refl s) hstart
    refine .inr ⟨_, _, wholeNode_of_parse_eq_none h, wholeNode_of_parse_eq_none hparse, ?_⟩
    exact hsearch ▸ sameFinding_ofFurthest hcut
  · have h' : r.Matches (lineFeeds s) g.lineFeeds (lineFeeds rest) := by
      rw [Rule.Matches, hparse, h]
      rfl
    have hwhole : g.Whole rest := (r.fair.whole_of_parse h).1
    have hsource : s = g.toList ++ rest := by simpa [Forest.toList] using (toList_parse h).symm
    rw [wholeNode_of_matches h, wholeNode_of_matches h']
    by_cases hrest : rest = []
    · obtain rfl := hrest
      rw [if_pos rfl, if_pos lineFeeds_nil]
      exact .inl ⟨_, _, rfl, rfl, ⟨hr, s, [], h⟩, rfl, rfl, [], [], hsource, seam_nil_left _,
        hwhole, rfl, rfl⟩
    · rw [if_neg hrest, if_neg (lineFeeds_ne_nil hrest), hwhole.toList_lineFeeds]
      exact .inr ⟨_, _, rfl, rfl, rfl, g.toList, rest, hsource, hwhole.seam, rfl, rfl⟩

/-- **A text and the text with line feeds have the same value**, or findings that correspond. -/
theorem alike_readText {α : Type} [Textual α] [Structural α] (hr : (Textual.rule α).Gathers)
    (s : List Char) :
    Alike (SameFinding s) (readText α s) (readText α (lineFeeds s)) := by
  rw [readText, readText]
  rcases wholeNode_lineFeeds hr s with ⟨n, n', hn, hn', hsame⟩ | ⟨e, e', he, he', hsame⟩
  · rw [hn, hn']
    exact Structural.read_alike (corresponds_lineFeeds s) hsame
  · rw [he, he']
    exact .error hsame

instance : (p : Part) → Structural p.Value
  | .point => inferInstanceAs (Structural (Point Float))
  | .points => inferInstanceAs (Structural (List (Point Float)))
  | .transform => inferInstanceAs (Structural (Transform Float))
  | .transforms => inferInstanceAs (Structural (List (Transform Float)))
  | .drawStyle => inferInstanceAs (Structural DrawStyle)
  | .shape => inferInstanceAs (Structural (Shape Float))
  | .shapes => inferInstanceAs (Structural (List (Shape Float)))
  | .group => inferInstanceAs (Structural (Group Float))
  | .document => inferInstanceAs (Structural (Document Float))

/-- **Line ends do not matter.**  With every line end a line feed, a source has the same value, or
the same fault at the place that corresponds. -/
theorem parse_withLineFeeds (p : Part) (source : Source) :
    let source' : Source := ⟨source.name, .ofList (lineFeeds source.text.toList)⟩
    (∀ v, parse p.Value source' = .ok v ↔ parse p.Value source = .ok v) ∧
    ∀ e, parse p.Value source = .error e → ∃ e', parse p.Value source' = .error e' ∧
      e'.fault = e.fault ∧ SamePlace source.text.toList e.span.offset e'.span.offset := by
  intro source'
  have hread := alike_readText p.gathers_rule source.text.toList
  have htext : source'.text.toList = lineFeeds source.text.toList := String.toList_ofList
  rw [← htext] at hread
  refine ⟨fun v => parse_eq_ok_iff.trans (hread.ok_iff.trans parse_eq_ok_iff.symm), fun e he => ?_⟩
  rw [parse] at he ⊢
  generalize readText p.Value source.text.toList = x at hread he
  generalize readText p.Value source'.text.toList = x' at hread ⊢
  cases hread with
  | ok v => cases he
  | @error finding finding' hsame =>
    obtain ⟨hfault, before, after, hsource, hseam, hoffset, hoffset'⟩ := hsame
    cases he
    refine ⟨source'.blame finding', rfl, hfault, before, after, hsource, hseam, ?_, ?_⟩
    · simp [Source.blame, Source.clamp, hoffset, hsource]
    · simp [Source.blame, Source.clamp, hoffset', htext, hsource, lineFeeds_append hseam]

end SceneText
